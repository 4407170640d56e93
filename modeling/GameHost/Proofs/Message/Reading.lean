import GameHost.Proofs.Message.Codec

/-!
Reading a message whatever it holds, in whatever order things are asked of it. The cursor stays within the message. What
is asked for and there is read from the bytes it goes over; a field that is not wholly there is not read, and a text that
nothing ends is read to the end of the message. Whether something was missing is known until the cursor is reset. All this
holds but for a demand for so many bytes that no machine word holds the place behind them: there the program stops.
-/
namespace GameHost.Message

/-- What can be asked of a message: a field, a text that a newline ends too, or a number of bytes. -/
inductive Demand where
  | field (kind : Kind)
  | line
  | data (count : UInt64)

inductive Reply where
  | value (value : Value)
  | bytes (found : Option Bytes)

/-- A number is what bytes spell as a signed word of their width, the lowest first. -/
structure Signed (width : Nat) (n : Int) (bytes : Bytes) : Prop where
  spelled : bytes = Bytes.ofNat width (n % (Nat.pow 256 width : Nat)).toNat
  low : -(Nat.pow 256 width : Nat) ≤ 2 * n
  high : 2 * n < (Nat.pow 256 width : Nat)

namespace Demand

/-- Read what is always answered. -/
def answering (reply : α → Reply) (read : Cursor → α × Cursor) : Act Cursor Reply := fun c =>
  let (result, after) := read c
  .ok (reply result) after

def read : Demand → Act Cursor Reply
  | .field kind => answering .value kind.read
  | .line => answering (fun words => .value (.text words)) Cursor.readLine
  | .data count => do return .bytes (← Cursor.readData count)

/-- How many bytes are asked for, if that is fixed. -/
def width? : Demand → Option Nat
  | .field .char | .field .byte | .field .angle => some 1
  | .field .short | .field .coord => some 2
  | .field .long | .field .single => some 4
  | .field .text | .line => none
  | .data count => some count.toNat

/-- A machine word holds the place behind what is asked for. No message is so long that one would not do for a field. -/
def InWord (c : Cursor) : Demand → Prop
  | .data count => c.position + count.toNat < UInt64.size
  | _ => True

/-- The bytes that end a text. -/
def Ends : Demand → UInt8 → Prop
  | .field .text, b => b = 0
  | .line, b => b = 0 ∨ b = 10
  | _, _ => False

/-- Whether what is asked for is there among the bytes ahead. -/
def Fits (demand : Demand) (ahead : Bytes) : Prop :=
  match demand.width? with
  | some width => width ≤ ahead.length
  | none => ∃ b ∈ ahead, demand.Ends b

/-- The bytes of something that is wholly there, and what they say. A text is said by the bytes before its end. -/
inductive Spells : Demand → Bytes → Reply → Prop where
  | char {n : Int} {bytes : Bytes} (signed : Signed 1 n bytes) : Spells (.field .char) bytes (.value (.number n))
  | byte (b : UInt8) : Spells (.field .byte) [b] (.value (.number b.toNat))
  | short {n : Int} {bytes : Bytes} (signed : Signed 2 n bytes) : Spells (.field .short) bytes (.value (.number n))
  | long {n : Int} {bytes : Bytes} (signed : Signed 4 n bytes) : Spells (.field .long) bytes (.value (.number n))
  | single (x : Single) : Spells (.field .single) (Bytes.ofWord32 x.bits) (.value (.single x))
  | coord {eighths : Int} {bytes : Bytes} (signed : Signed 2 eighths bytes) :
    Spells (.field .coord) bytes (.value (.single (Single.ofScaled eighths (-3))))
  | angle (steps : UInt8) : Spells (.field .angle) [steps] (.value (.single (Single.ofScaled (45 * steps.toNat) (-5))))
  | words {demand : Demand} {body : Bytes} {stop : UInt8} (onward : ∀ b ∈ body, ¬ demand.Ends b) (ends : demand.Ends stop) :
    Spells demand (body ++ [stop]) (.value (.text (Text.decode body)))
  | data {count : UInt64} {bytes : Bytes} (whole : bytes.length = count.toNat) :
    Spells (.data count) bytes (.bytes (some bytes))

/-- What is given in place of something that is not wholly there. -/
def standIn : Demand → Bytes → Reply
  | .field .char, _ | .field .byte, _ | .field .short, _ | .field .long, _ => .value (.number (-1))
  | .field .single, _ => .value (.single Single.minusOne)
  | .field .coord, _ | .field .angle, _ => .value (.single Single.zero)
  | .field .text, ahead | .line, ahead => .value (.text (Text.decode ahead))
  | .data _, _ => .bytes none

/-- How many bytes are gone over although what is asked for is not wholly there. -/
def spent (demand : Demand) (ahead : Bytes) : Nat :=
  match demand.width? with
  | some _ => 0
  | none => ahead.length

end Demand

/-- The part of a message from the cursor's position on. -/
def Cursor.ahead (c : Cursor) : Bytes := c.data.drop c.position

/-- How a demand is answered, and where the cursor is then. -/
structure Demand.Answered (demand : Demand) (c : Cursor) (reply : Reply) (after : Cursor) : Prop where
  data : after.data = c.data
  met : demand.Fits c.ahead → ∃ bytes, bytes <+: c.ahead ∧ demand.Spells bytes reply ∧
    after.position = c.position + bytes.length
  unmet : ¬ demand.Fits c.ahead → reply = demand.standIn c.ahead ∧
    after.position = c.position + demand.spent c.ahead
  short_iff : after.short = true ↔ c.short = true ∨ ¬ demand.Fits c.ahead

/-- A demand is answered as it should be. -/
def Demand.Disciplined (demand : Demand) (c : Cursor) : Prop :=
  ∃ reply after, demand.read c = .ok reply after ∧ demand.Answered c reply after

/-- A call that moves the cursor. -/
inductive Use where
  | read (demand : Demand)
  | reset

def Use.act : Use → Cursor → Cursor
  | .read demand, c => Act.final (demand.read c)
  | .reset, c => c.reset

/-- The cursor after a history of calls. -/
def used (uses : List Use) (c : Cursor) : Cursor := uses.foldl (fun c use => use.act c) c

/-- In a history from a cursor on, an answer was given to something that was not wholly there, and no reset came after
it. -/
def Missed (c : Cursor) (uses : List Use) : Prop :=
  ∃ early demand late, uses = early ++ .read demand :: late ∧ Use.reset ∉ late ∧ demand.InWord (used early c) ∧
    ¬ demand.Fits (used early c).ahead

/-- Bytes spell the signed word that they are read as. -/
theorem signed_signedWord {width : Nat} {bytes : Bytes} (whole : bytes.length = width) (some : 0 < width) :
    Signed width (Cursor.signedWord width bytes) bytes := by
  have positive : 0 < Nat.pow 256 width := Nat.pow_pos (by decide)
  have even : Nat.pow 256 width = 2 * (Nat.pow 256 (width - 1) * 128) := by
    have more : Nat.pow 256 (width - 1 + 1) = Nat.pow 256 (width - 1) * 256 := rfl
    rw [Nat.sub_add_cancel some] at more
    omega
  have least := Int.le_bmod (x := Bytes.toNat bytes) positive
  have most := Int.bmod_lt (x := Bytes.toNat bytes) positive
  constructor
  case spelled =>
    have bound : Bytes.toNat bytes < Nat.pow 256 width := whole ▸ Bytes.toNat_lt bytes
    have word : Cursor.signedWord width bytes % (Nat.pow 256 width : Nat) = Bytes.toNat bytes := by
      rw [Cursor.signedWord, Int.bmod_emod]
      exact Int.emod_eq_of_lt (Int.natCast_nonneg _) (Int.ofNat_lt.2 bound)
    rw [word, Int.toNat_natCast, ← whole, Bytes.ofNat_toNat]
  case low =>
    unfold Cursor.signedWord
    omega
  case high =>
    unfold Cursor.signedWord
    omega

namespace Cursor

variable (c : Cursor)

theorem ahead_eq : c.ahead = c.rest := by
  have before : c.position = c.before.reverse.length := List.length_reverse.symm
  rw [ahead, data, before, List.drop_left]

theorem position_add_remaining : c.position + c.remaining = c.data.length := by
  rw [data, List.length_append, List.length_reverse]
  rfl

theorem position_pass (count : Nat) : (pass count c).position = c.position + min count c.rest.length := by
  rw [pass_eq, position, List.length_append, List.length_reverse, List.length_take, Nat.add_comm]
  rfl

/-- Bytes are taken as a field that says just what they are. -/
theorem take_eq_field (count : Nat) : c.take count = c.field count none some := by
  unfold field
  split <;> assumption

end Cursor

namespace Demand

variable {demand : Demand} {c : Cursor}

/-- It goes over just the bytes that say the answer. -/
theorem answered_of_met {bytes after : Bytes} {reply : Reply} (fits : demand.Fits c.ahead)
    (there : c.rest = bytes ++ after) (spells : demand.Spells bytes reply) :
    demand.Answered c reply (Cursor.pass bytes.length c) := by
  have inside : bytes.length ≤ c.rest.length := by
    rw [there, List.length_append]
    exact Nat.le_add_right _ _
  constructor
  case data => exact Cursor.data_pass bytes.length c
  case met =>
    intro _
    refine ⟨bytes, ?_, spells, ?_⟩
    · rw [c.ahead_eq]
      exact ⟨after, there.symm⟩
    · rw [c.position_pass, Nat.min_eq_left inside]
  case unmet => exact fun missing => absurd fits missing
  case short_iff => simp [fits]

/-- It notes a shortage, goes over what is spent on it and gives what stands in. -/
theorem answered_of_unmet (missing : ¬ demand.Fits c.ahead) (inside : demand.spent c.ahead ≤ c.rest.length) :
    demand.Answered c (demand.standIn c.ahead) { Cursor.pass (demand.spent c.ahead) c with short := true } := by
  constructor
  case data => exact Cursor.data_pass _ c
  case met => exact fun fits => absurd fits missing
  case unmet => exact fun _ => ⟨rfl, (c.position_pass _).trans (by rw [Nat.min_eq_left inside])⟩
  case short_iff => simp [missing]

/-- What holds of every field of fixed width. -/
theorem disciplined_of_field {width : Nat} {α : Type} {absent : α} {means : Bytes → α} (wrap : α → Reply)
    (fixed : demand.width? = some width) (reads : demand.read c = answering wrap (Cursor.field width absent means) c)
    (standsIn : demand.standIn c.ahead = wrap absent)
    (spells : ∀ bytes : Bytes, bytes.length = width → demand.Spells bytes (wrap (means bytes))) :
    demand.Disciplined c := by
  have fits_iff : demand.Fits c.ahead ↔ width ≤ c.rest.length := by rw [Fits, fixed, c.ahead_eq]
  have spent : demand.spent c.ahead = 0 := by rw [Demand.spent, fixed]
  by_cases enough : width ≤ c.rest.length
  · have there : c.rest = c.rest.take width ++ c.rest.drop width := (List.take_append_drop ..).symm
    have whole : (c.rest.take width).length = width := List.length_take_of_le enough
    refine ⟨_, _, ?_, answered_of_met (fits_iff.2 enough) there (spells _ whole)⟩
    rw [reads, answering, Cursor.field_of_rest there whole, whole]
  · refine ⟨_, _, ?_, answered_of_unmet (fun fits => enough (fits_iff.1 fits)) (spent ▸ Nat.zero_le _)⟩
    rw [reads, answering, Cursor.field_of_short (Nat.not_le.1 enough), standsIn, spent]
    rfl

/-- What holds of every text. -/
theorem disciplined_of_until {ends : UInt8 → Bool} (unfixed : demand.width? = none)
    (reads : demand.read c = answering (fun words => .value (.text words)) (Cursor.readUntil ends) c)
    (standsIn : demand.standIn c.ahead = .value (.text (Text.decode c.ahead)))
    (ends_iff : ∀ b, demand.Ends b ↔ ends b = true) : demand.Disciplined c := by
  have fits_iff : demand.Fits c.ahead ↔ ∃ b ∈ c.rest, ends b = true := by simp only [Fits, unfixed, c.ahead_eq, ends_iff]
  have spent : demand.spent c.ahead = c.rest.length := by rw [Demand.spent, unfixed, c.ahead_eq]
  by_cases ended : ∃ b ∈ c.rest, ends b = true
  · obtain ⟨stop, found⟩ := Option.isSome_iff_exists.1 (List.find?_isSome.2 ended)
    obtain ⟨ending, body, after, there, before⟩ := List.find?_eq_some_iff_append.1 found
    have onward : ∀ b ∈ body, ends b = false := fun b member => by simpa using before b member
    have rest : c.rest = (body ++ [stop]) ++ after := by rw [there, List.append_cons]
    refine ⟨_, _, ?_, answered_of_met (fits_iff.2 ended) rest (.words (fun b member => ?_) ((ends_iff stop).2 ending))⟩
    · rw [reads, answering, Cursor.readUntil_of_rest onward ending there, List.length_append]
      rfl
    · rw [ends_iff, onward b member]
      exact Bool.false_ne_true
  · have onward : ∀ b ∈ c.rest, ends b = false := by
      intro b member
      exact Bool.eq_false_iff.2 fun ending => ended ⟨b, member, ending⟩
    refine ⟨_, _, ?_, answered_of_unmet (fun fits => ended (fits_iff.1 fits)) (Nat.le_of_eq spent)⟩
    rw [reads, answering, Cursor.readUntil_of_open onward, standsIn, spent, c.ahead_eq]

theorem disciplined_field (kind : Kind) (c : Cursor) : (field kind).Disciplined c := by
  let number (n : Int) : Reply := .value (.number n)
  let single (x : Single) : Reply := .value (.single x)
  cases kind with
  | char => exact disciplined_of_field number rfl rfl rfl fun _ whole => .char (signed_signedWord whole (by decide))
  | byte =>
    refine disciplined_of_field number rfl rfl rfl fun bytes whole => ?_
    obtain ⟨b, rfl⟩ := List.length_eq_one_iff.1 whole
    exact .byte b
  | short => exact disciplined_of_field number rfl rfl rfl fun _ whole => .short (signed_signedWord whole (by decide))
  | long => exact disciplined_of_field number rfl rfl rfl fun _ whole => .long (signed_signedWord whole (by decide))
  | single =>
    refine disciplined_of_field single rfl rfl rfl fun bytes whole => ?_
    have spelled := Spells.single ⟨Bytes.toWord32 bytes⟩
    rwa [Bytes.ofWord32_toWord32 whole] at spelled
  | coord => exact disciplined_of_field single rfl rfl rfl fun _ whole => .coord (signed_signedWord whole (by decide))
  | angle =>
    refine disciplined_of_field single rfl rfl rfl fun bytes whole => ?_
    obtain ⟨b, rfl⟩ := List.length_eq_one_iff.1 whole
    exact .angle b
  | text => exact disciplined_of_until rfl rfl rfl fun b => by simp [Ends]

theorem read_data_stops {count : UInt64} (beyond : UInt64.size ≤ c.position + count.toNat) :
    (data count).read c = .error .wordOverflow c :=
  Act.bind_of_error (if_neg (Nat.not_lt.2 beyond) : Cursor.readData count c = .error .wordOverflow c)

theorem disciplined_data {count : UInt64} (inWord : (data count).InWord c) : (data count).Disciplined c := by
  have taken : Cursor.readData count c = .ok (c.take count.toNat).1 (c.take count.toNat).2 := if_pos inWord
  have reads : (data count).read c = answering .bytes (Cursor.take count.toNat) c := Act.bind_of_ok taken
  rw [show Cursor.take count.toNat = Cursor.field count.toNat none some from funext fun c => c.take_eq_field _] at reads
  exact disciplined_of_field .bytes rfl reads rfl fun _ whole => .data whole

theorem disciplined_iff {demand : Demand} {c : Cursor} : demand.Disciplined c ↔ demand.InWord c := by
  cases demand with
  | field kind => exact iff_of_true (disciplined_field kind c) trivial
  | line => exact iff_of_true (disciplined_of_until rfl rfl rfl fun b => by simp [Ends]) trivial
  | data count =>
    refine ⟨fun disciplined => ?_, disciplined_data⟩
    obtain ⟨reply, after, ran, _⟩ := disciplined
    refine Nat.not_le.1 fun beyond => ?_
    rw [read_data_stops beyond] at ran
    cases ran

/-- A demand that is not answered leaves the cursor where it is. -/
theorem answered_or_stopped (demand : Demand) (c : Cursor) :
    (∃ reply, demand.Answered c reply (Act.final (demand.read c))) ∧ demand.InWord c ∨
      Act.final (demand.read c) = c ∧ ¬ demand.InWord c := by
  by_cases inWord : demand.InWord c
  · obtain ⟨reply, after, ran, answered⟩ := disciplined_iff.2 inWord
    rw [ran]
    exact .inl ⟨⟨reply, answered⟩, inWord⟩
  · cases demand with
    | data count =>
      rw [read_data_stops (Nat.not_lt.1 inWord)]
      exact .inr ⟨rfl, inWord⟩
    | _ => exact absurd trivial inWord

end Demand

section

variable {c : Cursor} {use : Use} {uses : List Use}

theorem Use.data_act (use : Use) (c : Cursor) : (use.act c).data = c.data := by
  cases use with
  | read demand =>
    rcases demand.answered_or_stopped c with ⟨⟨_, answered⟩, _⟩ | ⟨same, _⟩
    · exact answered.data
    · exact congrArg Cursor.data same
  | reset => rfl

theorem data_used (uses : List Use) (c : Cursor) : (used uses c).data = c.data := by
  induction uses generalizing c with
  | nil => rfl
  | cons use rest ih => exact (ih (use.act c)).trans (use.data_act c)

theorem Missed.here {demand : Demand} (still : Use.reset ∉ uses) (inWord : demand.InWord c)
    (missing : ¬ demand.Fits c.ahead) : Missed c (.read demand :: uses) := ⟨[], demand, uses, rfl, still, inWord, missing⟩

theorem Missed.later (missed : Missed (use.act c) uses) : Missed c (use :: uses) := by
  obtain ⟨early, demand, late, rfl, still, missing⟩ := missed
  exact ⟨use :: early, demand, late, rfl, still, missing⟩

theorem missed_cons (missed : Missed c (use :: uses)) :
    (∃ demand, use = .read demand ∧ Use.reset ∉ uses ∧ demand.InWord c ∧ ¬ demand.Fits c.ahead) ∨
      Missed (use.act c) uses := by
  obtain ⟨early, demand, late, split, still, missing⟩ := missed
  cases early with
  | nil =>
    obtain ⟨rfl, rfl⟩ := List.cons.inj split
    exact .inl ⟨demand, rfl, still, missing⟩
  | cons first early =>
    obtain ⟨rfl, rfl⟩ := List.cons.inj split
    exact .inr ⟨early, demand, late, rfl, still, missing⟩

theorem short_act_iff (demand : Demand) (c : Cursor) :
    ((Use.read demand).act c).short = true ↔ c.short = true ∨ demand.InWord c ∧ ¬ demand.Fits c.ahead := by
  change (Act.final (demand.read c)).short = true ↔ _
  rcases demand.answered_or_stopped c with ⟨⟨_, answered⟩, inWord⟩ | ⟨same, beyond⟩
  · simp [answered.short_iff, inWord]
  · simp [same, beyond]

/-- A shortage is known from before if there has been no reset, or there was one since the last. -/
theorem short_used_iff (uses : List Use) (c : Cursor) :
    (used uses c).short = true ↔ (c.short = true ∧ Use.reset ∉ uses) ∨ Missed c uses := by
  induction uses generalizing c with
  | nil =>
    have none : ¬ Missed c [] := by
      rintro ⟨early, demand, late, split, _⟩
      cases early <;> cases split
    simp [used, none]
  | cons use rest ih =>
    have onward := ih (use.act c)
    change (used rest (use.act c)).short = true ↔ _
    rw [onward]
    cases use with
    | read demand =>
      rw [short_act_iff]
      constructor
      · rintro (⟨short | ⟨inWord, missing⟩, still⟩ | missed)
        · exact .inl ⟨short, by simpa using still⟩
        · exact .inr (.here still inWord missing)
        · exact .inr missed.later
      · rintro (⟨short, still⟩ | missed)
        · exact .inl ⟨.inl short, by simpa using still⟩
        · rcases missed_cons missed with ⟨_, ⟨⟩, still, inWord, missing⟩ | later
          · exact .inl ⟨.inr ⟨inWord, missing⟩, still⟩
          · exact .inr later
    | reset =>
      constructor
      · rintro (⟨⟨⟩, _⟩ | missed)
        exact .inr missed.later
      · rintro (⟨_, still⟩ | missed)
        · exact absurd List.mem_cons_self still
        · rcases missed_cons missed with ⟨_, ⟨⟩, _⟩ | later
          exact .inr later

end

/-- Whatever is asked of a message, and in whatever order: the cursor stays in it, a demand is met as it should be or comes
to what stands in for it, and a shortage is known exactly if there was one since the last reset. Exactly the demands for
so many bytes that no word holds the place behind them are not answered; the program stops at them. -/
theorem demands_disciplined_iff (data : Bytes) (uses : List Use) :
    let c := used uses (Cursor.ofBytes data)
    c.data = data ∧ c.position ≤ data.length ∧ c.position + c.remaining = data.length ∧
      (c.short = true ↔ Missed (Cursor.ofBytes data) uses) ∧ c.reset = Cursor.ofBytes data ∧
      (∀ demand : Demand, demand.Disciplined c ↔ demand.InWord c) ∧
      ∀ count : UInt64, UInt64.size ≤ c.position + count.toNat → (Demand.data count).read c = .error .wordOverflow c := by
  intro c
  have whole : c.data = data := data_used uses (Cursor.ofBytes data)
  have sum : c.position + c.remaining = data.length := c.position_add_remaining.trans (congrArg List.length whole)
  refine ⟨whole, by omega, sum, ?_, congrArg Cursor.ofBytes whole, fun demand => Demand.disciplined_iff,
    fun count => Demand.read_data_stops⟩
  rw [short_used_iff]
  simp [Cursor.ofBytes]

/-- A byte is read, and as many more are asked for as a word can count. -/
example : (Demand.data 0xFFFFFFFFFFFFFFFF).read (used [.read (.field .byte)] (Cursor.ofBytes [1])) =
    .error .wordOverflow ⟨[1], [], false⟩ := rfl

end GameHost.Message
