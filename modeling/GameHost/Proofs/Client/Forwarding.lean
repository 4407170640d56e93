import GameHost.Client.Command
import GameHost.Proofs.Message.Discipline
import GameHost.Proofs.Shell.Line
import GameHost.Proofs.Text.Utf8

/-!
Handing a line to the server. It goes behind the commands that wait, as a whole or not at all: a line for which there
is no room costs all that waits, and one that is longer than the queue ends the host with a fault.
-/
namespace GameHost
open GameHost.Message (Buffer)

namespace Message.Buffer

/-- Some bytes are written if there is room for all of them, else the message has overflowed. -/
structure Filled (b : Buffer) (bytes : Bytes) (t : Buffer) : Prop where
  steady : Steady b t
  whole : bytes.length ≤ b.capacity → t.written = bytes ∧ t.overflowed = b.overflowed
  full : b.capacity < bytes.length → t.overflowed = true

/-- The bytes with a text in continuation of them. -/
def continued (bytes : Bytes) (text : Text) : Bytes :=
  (if bytes.getLast? = some 0 then bytes.dropLast else bytes) ++ terminated text

theorem continued_of_open {bytes : Bytes} (unended : bytes.getLast? ≠ some 0) (text : Text) :
    continued bytes text = bytes ++ terminated text := by
  rw [continued, if_neg unended]

theorem continued_terminated (bytes : Bytes) (text more : Text) :
    continued (bytes ++ terminated text) more = bytes ++ terminated (text ++ more) := by
  have ended : bytes ++ terminated text = bytes ++ Text.encode text ++ [0] := by simp [terminated]
  rw [continued, ended, if_pos (by simp), List.dropLast_concat]
  simp [terminated, Text.encode]

theorem length_terminated (text : Text) : (terminated text).length = Text.size text + 1 := by
  rw [terminated, List.length_append, Text.length_encode]
  rfl

theorem length_le_continued (bytes : Bytes) (text : Text) : bytes.length ≤ (continued bytes text).length := by
  have added := length_terminated text
  unfold continued
  split
  · rw [List.length_append, List.length_dropLast]
    omega
  · rw [List.length_append]
    omega

variable {b m : Buffer} {bytes : Bytes}

theorem Filled.of_added {new : Bytes} {outcome : EStateM.Result Fault Buffer Unit} (forgiving : b.forgiving = true)
    (added : Added b b.written (.own new) outcome) (short : new.length ≤ b.capacity) :
    ∃ t, outcome = .ok () t ∧ Filled b (b.written ++ new) t := by
  have steady := added.steady
  by_cases fits : b.written.length + new.length ≤ b.capacity
  · obtain ⟨t, rfl, written, same⟩ := added.fits fits
    refine ⟨t, rfl, steady, fun _ => ⟨written, same⟩, fun full => ?_⟩
    rw [List.length_append] at full
    omega
  · obtain ⟨t, rfl, _, spilt⟩ := added.dropped forgiving (Nat.not_le.1 fits) short
    refine ⟨t, rfl, steady, fun whole => ?_, fun _ => spilt⟩
    rw [List.length_append] at whole
    omega

theorem Filled.append (filled : Filled b bytes m) (forgiving : b.forgiving = true) {text : Text}
    (short : Text.size text < b.capacity) :
    ∃ t, Buffer.append text m = .ok () t ∧ Filled b (continued bytes text) t := by
  have added := Writing.added_append text m
  have longer := length_le_continued bytes text
  have room : (Addition.own (terminated text)).length ≤ m.capacity := by
    rw [filled.steady.capacity, Addition.length, length_terminated]
    exact short
  have sum (same : m.written = bytes) : ((Writing.append text).kept m).length + (terminated text).length =
      (continued bytes text).length := by
    rw [continued, List.length_append, ← same]
    rfl
  by_cases fits : ((Writing.append text).kept m).length + (terminated text).length ≤ m.capacity
  · obtain ⟨t, ran, written, same⟩ := added.fits fits
    have steady := added.steady
    rw [ran] at steady
    refine ⟨t, ran, filled.steady.trans steady, fun whole => ?_, fun full => ?_⟩
    · obtain ⟨before, spilt⟩ := filled.whole (Nat.le_trans longer whole)
      refine ⟨?_, same.trans spilt⟩
      rw [written, continued, ← before]
      rfl
    · rw [same]
      by_cases there : bytes.length ≤ b.capacity
      · have far := sum (filled.whole there).1
        rw [filled.steady.capacity] at fits
        omega
      · exact filled.full (Nat.not_le.1 there)
  · obtain ⟨t, ran, _, spilt⟩ := added.dropped (filled.steady.forgiving.trans forgiving) (Nat.not_le.1 fits) room
    have steady := added.steady
    rw [ran] at steady
    refine ⟨t, ran, filled.steady.trans steady, fun whole => ?_, fun _ => spilt⟩
    have near := sum (filled.whole (Nat.le_trans longer whole)).1
    rw [filled.steady.capacity] at fits
    omega

theorem append_oversized {text : Text} (forgiving : m.forgiving = true) (long : m.capacity ≤ Text.size text) :
    Buffer.append text m = .error (.oversized (Text.size text + 1)) m := by
  have added := Writing.added_append text m
  have length : (Addition.own (terminated text)).length = Text.size text + 1 := length_terminated text
  obtain ⟨t, ran⟩ := added.oversized_iff.2 ⟨forgiving, by omega⟩
  rw [length] at ran
  rw [ran, (added.failed _ _ ran).1]

end Message.Buffer

namespace Client
open Message.Buffer (Filled)

/-- What ends the text of a command: the words after the first, or a newline if there are none. -/
def ending (line : Line) : Text := if 1 < line.count then line.tail else ['\n']

/-- The text that a line is for the server. -/
def spoken (line : Line) : Text :=
  (if Text.same (line.word 0) "cmd" then [] else line.word 0 ++ [' ']) ++ ending line

/-- The command that carries a line to the server, as it stands in the queue. -/
def carrying (line : Line) : Bytes := (Bytes.ofInt32 textCommand).take 1 ++ Buffer.terminated (spoken line)

/-- A command up to its last text. -/
def opening (line : Line) : Act Buffer Unit := do
  Buffer.writeByte textCommand
  if !Text.same (line.word 0) "cmd" then
    Buffer.append (line.word 0)
    Buffer.append [' ']

theorem addCommand_eq (line : Line) : addCommand line = (opening line >>= fun _ => Buffer.append (ending line)) := by
  unfold addCommand opening ending
  rw [bind_assoc]
  congr 1
  funext _
  split <;> dsimp only <;> split <;> simp only [bind_assoc, pure_bind]

variable {b : Buffer} {line : Line}

theorem opening_filled (forgiving : b.forgiving = true) (room : 1 < b.capacity) (first : Text.size (line.word 0) < b.capacity) :
    ∃ m bytes, opening line b = .ok () m ∧ Filled b bytes m ∧
      Buffer.continued bytes (ending line) = b.written ++ carrying line := by
  obtain ⟨m, wrote, filled⟩ := Filled.of_added forgiving (Message.Writing.added (.byte textCommand) b) (Nat.le_of_lt room)
  have wrote : Buffer.writeByte textCommand b = .ok () m := wrote
  have unended : (b.written ++ (Bytes.ofInt32 textCommand).take 1).getLast? ≠ some 0 := by
    rw [show (Bytes.ofInt32 textCommand).take 1 = [4] from rfl, List.getLast?_concat]
    decide
  unfold opening carrying spoken
  cases plain : Text.same (line.word 0) "cmd" with
  | true =>
    refine ⟨m, _, (Act.bind_of_ok wrote).trans rfl, filled, ?_⟩
    rw [Buffer.continued_of_open unended, List.append_assoc]
    rfl
  | false =>
    obtain ⟨n, named, filled⟩ := filled.append forgiving first
    have blank : Text.size [' '] < b.capacity := room
    obtain ⟨t, spaced, filled⟩ := filled.append forgiving blank
    refine ⟨t, _, (Act.bind_of_ok wrote).trans ((Act.bind_of_ok named).trans spaced), filled, ?_⟩
    rw [Buffer.continued_of_open unended, Buffer.continued_terminated, Buffer.continued_terminated, List.append_assoc]
    rfl

theorem addCommand_filled (forgiving : b.forgiving = true) (room : 1 < b.capacity)
    (first : Text.size (line.word 0) < b.capacity) (short : Text.size (ending line) < b.capacity) :
    ∃ t, addCommand line b = .ok () t ∧ Filled b (b.written ++ carrying line) t := by
  obtain ⟨m, bytes, opened, filled, whole⟩ := opening_filled forgiving room first
  obtain ⟨t, ended, filled⟩ := filled.append forgiving short
  rw [whole] at filled
  rw [addCommand_eq]
  exact ⟨t, (Act.bind_of_ok opened).trans ended, filled⟩

theorem addCommand_oversized (forgiving : b.forgiving = true) (room : 1 < b.capacity)
    (first : Text.size (line.word 0) < b.capacity) (long : b.capacity ≤ Text.size (ending line)) :
    ∃ t, addCommand line b = .error (.oversized (Text.size (ending line) + 1)) t := by
  obtain ⟨m, bytes, opened, ⟨steady, _, _⟩, _⟩ := opening_filled forgiving room first
  rw [addCommand_eq, Act.bind_of_ok opened]
  exact ⟨m, Buffer.append_oversized (steady.forgiving.trans forgiving) (steady.capacity ▸ long)⟩

/-- A player's line is for the server: it names the command that forwards, or nothing at all and no key. -/
inductive Forwarded (s : Session) (text : Text) : Prop where
  | command (known : Host.meaning (s.shell.accept text .player) = .command .forward)
  | unknown (known : Host.meaning (s.shell.accept text .player) = .unknown)
      (noPlus : ((Line.ofText text).word 0).head? ≠ some '+') (noMinus : ((Line.ofText text).word 0).head? ≠ some '-')

section

variable {s : Session} {text : Text}

/-- The line is added to the commands that wait. -/
def adding (line : Line) : Act Session Unit :=
  within Client.outgoing (fun outgoing c => { c with outgoing }) (addCommand line)

theorem adding_of_ok {line : Line} {queue : Buffer} (added : addCommand line s.world.outgoing = .ok () queue) :
    adding line s = .ok () { s with world := { s.world with outgoing := queue } } := by
  unfold adding within Act.within
  rw [added]

theorem adding_of_error {line : Line} {queue : Buffer} {fault : Fault}
    (failed : addCommand line s.world.outgoing = .error fault queue) :
    adding line s = .error fault { s with world := { s.world with outgoing := queue } } := by
  unfold adding within Act.within
  rw [failed]

theorem forwardLine_of_live (live : s.world.connected = true) (quiet : s.world.playing = false) :
    forwardLine s = adding s.shell.line s := by
  change (if !s.world.connected then _ else if !s.world.playing then _ else _ : Act Session Unit) s = _
  rw [live, quiet]
  rfl

theorem runLine_of_forwarded (live : s.world.connected = true) (quiet : s.world.playing = false)
    (forwarded : Forwarded s text) :
    Host.runLine text .player s = adding (Line.ofText text) { s with shell := s.shell.accept text .player } := by
  let m : Session := { s with shell := s.shell.accept text .player }
  have took : (Host.onShell (Shell.accept text .player) : Act Session Unit) s = .ok () m := rfl
  have given : forwardLine m = adding (Line.ofText text) m := forwardLine_of_live (s := m) live quiet
  unfold Host.runLine Host.runLineWithin
  rw [Act.bind_of_ok took, Act.bind_get]
  cases forwarded with
  | command known =>
    rw [show Host.meaning m.shell = .command .forward from known]
    exact given
  | unknown known noPlus noMinus =>
    have sent : (s.world.connected && !s.world.playing && !(((Line.ofText text).word 0).head? == some '+' ||
        ((Line.ofText text).word 0).head? == some '-')) = true := by
      simp [live, quiet, noPlus, noMinus]
    rw [show Host.meaning m.shell = .unknown from known]
    exact (congrFun (if_pos sent) m).trans given

theorem ending_fits_iff (line : Line) : Text.size (ending line) < outgoingLimit ↔
    (1 < line.count → Text.size line.tail < outgoingLimit) := by
  unfold ending
  split
  · simp [*]
  · simp only [*, false_implies, iff_true]
    decide

/-- A line for the server is added to what waits, whatever that is, unless its tail is as long as the queue. -/
theorem forwarding_ok_iff (live : s.world.connected = true) (quiet : s.world.playing = false)
    (forgiving : s.world.outgoing.forgiving = true) (capacity : s.world.outgoing.capacity = outgoingLimit)
    (forwarded : Forwarded s text) :
    ((∃ t, Host.runLine text .player s = .ok () t) ↔
      (1 < (Line.ofText text).count → Text.size (Line.ofText text).tail < outgoingLimit)) ∧
    (∀ t, Host.runLine text .player s = .ok () t →
      Filled s.world.outgoing (s.world.outgoing.written ++ carrying (Line.ofText text)) t.world.outgoing) ∧
    (∀ fault t, Host.runLine text .player s = .error fault t →
      fault = .oversized (Text.size (Line.ofText text).tail + 1)) := by
  have room : 1 < s.world.outgoing.capacity := by
    rw [capacity]
    decide
  have first : Text.size ((Line.ofText text).word 0) < s.world.outgoing.capacity := by
    rw [capacity]
    exact Nat.lt_trans (Line.fits_word text 0).1 (by decide)
  rw [runLine_of_forwarded live quiet forwarded, ← ending_fits_iff]
  by_cases short : Text.size (ending (Line.ofText text)) < outgoingLimit
  · obtain ⟨queue, added, filled⟩ := addCommand_filled forgiving room first (capacity ▸ short)
    rw [adding_of_ok (s := { s with shell := s.shell.accept text .player }) added]
    refine ⟨⟨fun _ => short, fun _ => ⟨_, rfl⟩⟩, ?_, ?_⟩
    · rintro t ⟨⟩
      exact filled
    · rintro fault t ⟨⟩
  · obtain ⟨queue, failed⟩ := addCommand_oversized forgiving room first (capacity ▸ Nat.not_lt.1 short)
    rw [adding_of_error (s := { s with shell := s.shell.accept text .player }) failed]
    refine ⟨⟨?_, fun fits => absurd fits short⟩, ?_, ?_⟩
    · rintro ⟨t, ⟨⟩⟩
    · rintro t ⟨⟩
    · rintro fault t ⟨⟩
      unfold ending at short ⊢
      split at short
      · rw [if_pos ‹_›]
      · exact absurd (by decide) short

end

theorem forwarded_cmd {s : Session} (known : NameTable.get? s.shell.commands "cmd" = some .forward) (rest : Text) :
    Forwarded s ("cmd".toList ++ ' ' :: rest) := by
  have plain : Token.PlainName "cmd".toList := by
    refine ⟨⟨'c', ['m', 'd'], rfl, by decide, by decide⟩, ?_, by decide⟩
    simp [Token.isWordChar, Token.isGap, Token.isPunctuation]
  obtain ⟨later, words⟩ := Line.words_of_plain plain rest
  apply Forwarded.command
  unfold Host.meaning Shell.accept
  rw [words]
  dsimp only
  rw [known]

/-- A session with a connection over a loopback. -/
def linkedSession : Session :=
  let fresh := newSession (SearchPath.ofBase "/") (Disk.empty []) Console.captured
  { fresh with world := { fresh.world with
    net := some (.loopback .empty), socket := some ⟨1, "a"⟩, connected := true } }

/-- A line that can wait to be run, and whose tail is as long as the queue. -/
def longLine : Text := "cmd".toList ++ ' ' :: List.replicate outgoingLimit 'x'

theorem long_line_fatal : Text.size longLine < Shell.pendingLimit ∧ Forwarded linkedSession longLine ∧
    ∃ t, Host.runLine longLine .player linkedSession = .error (.oversized 8001) t := by
  obtain ⟨count, size⟩ : 1 < (Line.ofText longLine).count ∧ Text.size (Line.ofText longLine).tail = 8000 := by
    decide +kernel
  have known : NameTable.get? linkedSession.shell.commands "cmd" = some .forward := by decide +kernel
  have forwarded : Forwarded linkedSession longLine := forwarded_cmd known _
  have capacity : linkedSession.world.outgoing.capacity = outgoingLimit := by decide +kernel
  obtain ⟨ok_iff, _, failed⟩ := forwarding_ok_iff (s := linkedSession) rfl rfl rfl capacity forwarded
  refine ⟨by decide +kernel, forwarded, ?_⟩
  cases ran : Host.runLine longLine .player linkedSession with
  | ok _ t =>
    have short := ok_iff.1 ⟨t, ran⟩ count
    rw [size] at short
    exact absurd short (by decide)
  | error fault t =>
    have cause := failed fault t ran
    rw [size] at cause
    rw [cause]
    exact ⟨t, rfl⟩

end Client

end GameHost
