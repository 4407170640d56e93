import GameHost.Proofs.Replay.RoundTrip

/-!
What the bytes of a recording say, entry by entry, whoever asks. Reading a player follows the decoding: it
gives what is decoded and leaves the player where the decoding leaves the bytes, and where nothing can be
decoded it stops for a reason of its own, never by saying that the host asked for something else.
-/
namespace GameHost

/-- The faults that say that the host asked for something else than was recorded. -/
def Fault.isDivergence : Fault → Bool
  | .diverged .. | .recordingEnded => true
  | _ => false

namespace Replay
open GameHost.Message
open GameHost.Network (Socket)

/-- What is decoded from the front of some bytes, and the bytes after it. -/
abbrev Decoder (α : Type) := StateT Bytes Option α

def block (count : Nat) : Decoder Bytes := fun bytes =>
  if count ≤ bytes.length then some (bytes.take count, bytes.drop count) else none

theorem Decoder.bind_some {α β : Type} {first : Decoder α} {next : α → Decoder β} {bytes : Bytes} {found : β × Bytes} :
    (first >>= next) bytes = some found ↔ ∃ a rest, first bytes = some (a, rest) ∧ next a rest = some found := by
  change (first bytes).bind (fun x => next x.1 x.2) = some found ↔ _
  rw [Option.bind_eq_some_iff]
  exact Prod.exists

def number : Decoder Int32 := do return Bytes.toInt32 (← block 4)

def message : Decoder (Int32 × Option Bytes) := do
  let kind ← number
  if 0 < kind then
    let length ← number
    if length < 0 || messageLimit < length.toNatClampNeg then failure
    else return (kind, some (← block length.toNatClampNeg))
  else return (kind, none)

/-- What belongs to an entry of an operation and a session. -/
def Operation.answer (session : Int64) : Operation → Decoder Answer
  | .connect =>
    if session == 0 then return .connection none
    else return .connection (some ⟨session, Player.addressOf (← block addressSize)⟩)
  | .receive => do
    let content ← message
    return .message content.1 content.2
  | .send => return .result (← number)
  | .ready => return .ready ((← number) != 0)

def Operation.ofCode? (code : Int32) : Option Operation :=
  [connect, receive, send, ready].find? fun operation => operation.code == code

@[simp] theorem Operation.ofCode?_code (operation : Operation) : ofCode? operation.code = some operation := by
  cases operation <;> rfl

def Record.answer (record : Record) : Decoder Answer :=
  match Operation.ofCode? record.code with
  | some operation => operation.answer record.session
  | none => failure

/-- The entry at the front of some bytes. -/
def recorded : Decoder (Record × Answer) := do
  let record ← (Record.decode? : Decoder Record)
  let answer ← record.answer
  return (record, answer)

/-- The header at the front of some bytes. -/
def header? (bytes : Bytes) : Option Record := (Record.decode? bytes).map Prod.fst

/-- No entry of an unknown operation is next. -/
def Continues (bytes : Bytes) : Prop := ∀ record, header? bytes = some record → record.known = true

theorem header?_none {bytes : Bytes} (short : bytes.length < Record.size) : header? bytes = none := by
  simp [header?, Record.decode?, short]

theorem decode?_eq (bytes : Bytes) :
    Record.decode? bytes = (header? bytes).map fun record => (record, bytes.drop Record.size) := by
  unfold header? Record.decode?
  split <;> rfl

theorem header?_take (bytes : Bytes) : header? (bytes.take Record.size) = header? bytes := by
  simp only [header?, Record.decode?, List.take_take, List.drop_take, Nat.min_self]
  split <;> simp [Record.size]

/-- An action that reads as the decoder says. -/
structure Reads {α : Type} (act : Act Player α) (decoder : Decoder α) : Prop where
  ok : ∀ {p q : Player} {a : α}, act p = .ok a q → decoder p.rest = some (a, q.rest) ∧ q.clock = p.clock
  error : ∀ {p q : Player} {fault : Fault}, act p = .error fault q →
    decoder p.rest = none ∧ fault.isDivergence = false

namespace Reads

variable {α β : Type}

theorem pure (a : α) : Reads (pure a) (Pure.pure a) where
  ok ran := by cases ran; exact ⟨rfl, rfl⟩
  error ran := by cases ran

theorem throw {fault : Fault} (other : fault.isDivergence = false) : Reads (throw fault : Act Player α) failure where
  ok ran := by cases ran
  error ran := by cases ran; exact ⟨rfl, other⟩

theorem bind {act : Act Player α} {decoder : Decoder α} {next : α → Act Player β} {after : α → Decoder β}
    (first : Reads act decoder) (second : ∀ a, Reads (next a) (after a)) :
    Reads (act >>= next) (decoder >>= after) where
  ok {p q b} ran := by
    obtain ⟨a, m, begun, ended⟩ := Act.bind_ok.1 ran
    obtain ⟨decoded, clock⟩ := first.ok begun
    obtain ⟨onward, still⟩ := (second a).ok ended
    refine ⟨?_, still.trans clock⟩
    change (decoder p.rest).bind (fun x => after x.1 x.2) = _
    rw [decoded]
    exact onward
  error {p q fault} ran := by
    change (decoder p.rest).bind (fun x => after x.1 x.2) = _ ∧ _
    rcases Act.bind_error.1 ran with stopped | ⟨a, m, begun, stopped⟩
    · obtain ⟨nothing, other⟩ := first.error stopped
      exact ⟨by rw [nothing]; rfl, other⟩
    · obtain ⟨nothing, other⟩ := (second a).error stopped
      exact ⟨by rw [(first.ok begun).1]; exact nothing, other⟩

theorem map {act : Act Player α} {decoder : Decoder α} (reads : Reads act decoder) (f : α → β) :
    Reads (act >>= fun a => Pure.pure (f a)) (decoder >>= fun a => Pure.pure (f a)) :=
  reads.bind fun a => pure (f a)

end Reads

namespace Player

theorem read_eq (count : Nat) (p : Player) :
    read count p = if count ≤ p.rest.length then .ok (p.rest.take count) (p.skip count)
      else .error (.storage .cutShort) (p.skip count) := by
  unfold read
  rw [take_eq]
  by_cases there : count ≤ p.rest.length
  · simp only [if_pos there]
  · simp only [if_neg there]

theorem read_reads (count : Nat) : Reads (read count) (block count) where
  ok {p q bytes} ran := by
    rw [read_eq] at ran
    split at ran
    · rename_i there
      cases ran
      rw [rest_skip]
      exact ⟨if_pos there, rfl⟩
    · cases ran
  error {p q fault} ran := by
    rw [read_eq] at ran
    split at ran
    · cases ran
    · rename_i short
      cases ran
      exact ⟨if_neg short, rfl⟩

theorem readInt32_reads : Reads readInt32 number := (read_reads 4).map Bytes.toInt32

/-- A recorded message: its kind, and its bytes if the kind is positive. -/
def content : Act Player (Int32 × Option Bytes) := do
  let kind ← readInt32
  if 0 < kind then
    let length ← readInt32
    if length < 0 || messageLimit < length.toNatClampNeg then throw (.messageLength length)
    else
      let data ← read length.toNatClampNeg
      return (kind, some data)
  else return (kind, none)

theorem content_reads : Reads content message := by
  refine readInt32_reads.bind fun kind => ?_
  split
  · refine readInt32_reads.bind fun length => ?_
    split
    · exact Reads.throw rfl
    · exact (read_reads length.toNatClampNeg).map fun data => (kind, some data)
  · exact Reads.pure (kind, none)

end Player

/-- Put the bytes of a message into a buffer, if there is one. -/
def deliver : Option Bytes → Act Buffer Unit
  | some data => Buffer.fill data
  | none => pure ()

theorem Player.receive_eq (socket : Socket) :
    receive socket = (do
      let _ ← Act.first (expect .receive (some socket.session))
      let arrived ← Act.first content
      Act.second (deliver arrived.2)
      Act.first advance
      return arrived.1) := by
  unfold receive content
  simp only [Act.first_bind, bind_assoc]
  congr 1
  funext _
  congr 1
  funext kind
  split
  · rw [Act.first_bind, bind_assoc]
    congr 1
    funext length
    split
    · rfl
    · simp only [Act.first_bind, bind_assoc]
      rfl
  · rfl

end Replay
end GameHost
