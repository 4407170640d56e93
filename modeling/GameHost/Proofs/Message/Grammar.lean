import GameHost.Message.Order

/-!
The grammar of the server's messages: a message is a run of directives, each whole. What a directive spells is
read as its order, whatever comes after it; where no directive begins, what is read is an order that ends the game,
after at most one that was cut short.
-/
namespace GameHost

namespace Bytes

theorem toNat_lt (bytes : Bytes) : toNat bytes < Nat.pow 256 bytes.length := by
  induction bytes with
  | nil => exact Nat.one_pos
  | cons b rest ih =>
    have small := b.toNat_lt
    rw [toNat, show Nat.pow 256 (b :: rest).length = Nat.pow 256 rest.length * 256 from rfl]
    omega

theorem ofNat_toNat (bytes : Bytes) : ofNat bytes.length (toNat bytes) = bytes := by
  induction bytes with
  | nil => rfl
  | cons b rest ih =>
    have small := b.toNat_lt
    have low : UInt8.ofNat (b.toNat + 256 * toNat rest) = b := by
      apply UInt8.toNat.inj
      rw [UInt8.toNat_ofNat']
      omega
    have high : (b.toNat + 256 * toNat rest) / 256 = toNat rest := by omega
    rw [toNat, List.length_cons, ofNat, low, high, ih]

theorem ofWord32_toWord32 {bytes : Bytes} (whole : bytes.length = 4) : ofWord32 (toWord32 bytes) = bytes := by
  have small := toNat_lt bytes
  rw [whole] at small
  have same : (UInt32.ofNat (toNat bytes)).toNat = toNat bytes := by
    rw [UInt32.toNat_ofNat', Nat.mod_eq_of_lt small]
  rw [ofWord32, toWord32, same, ← whole, ofNat_toNat]

end Bytes

namespace Message

namespace Cursor

variable {c : Cursor} {b : UInt8} {bytes after : Bytes} {α : Type}

@[simp] theorem rest_pass (count : Nat) (c : Cursor) : (pass count c).rest = c.rest.drop count := by
  rw [pass_eq]

@[simp] theorem short_pass (count : Nat) (c : Cursor) : (pass count c).short = c.short := by
  rw [pass_eq]

theorem field_of_rest {width : Nat} (there : c.rest = bytes ++ after) (whole : bytes.length = width) (absent : α)
    (read : Bytes → α) : c.field width absent read = (read bytes, pass width c) := by
  subst whole
  simp [field, take, there]

theorem field_of_short {width : Nat} (short : c.rest.length < width) (absent : α) (read : Bytes → α) :
    c.field width absent read = (absent, { c with short := true }) := by
  have less : ¬min width c.rest.length = width := by omega
  simp [field, take, less]

theorem readByte_of_rest (there : c.rest = b :: after) : c.readByte = ((b.toNat : Int), pass 1 c) := by
  have read := field_of_rest (show c.rest = [b] ++ after from there) rfl (-1) fun bytes => (Bytes.toNat bytes : Int)
  simpa [readByte, Bytes.toNat] using read

theorem readSingle_of_rest {seconds : Single} (there : c.rest = Bytes.ofWord32 seconds.bits ++ after) :
    c.readSingle = (seconds, pass 4 c) := by
  have read := field_of_rest there (Bytes.length_ofNat 4 _) Single.minusOne fun bytes => ⟨Bytes.toWord32 bytes⟩
  simpa [readSingle] using read

theorem pass_succ (count : Nat) (c : Cursor) : pass (count + 1) c = pass 1 (pass count c) := by
  obtain ⟨before, rest, short⟩ := c
  induction count generalizing before rest with
  | zero => rfl
  | succ count ih =>
    cases rest with
    | nil => rfl
    | cons b rest => exact ih (b :: before) rest

section

variable {ends : UInt8 → Bool}

/-- A text is read up to the first byte that ends it, and reading goes on behind that byte. -/
theorem readUntil_of_rest {stop : UInt8} (onward : ∀ b ∈ bytes, ends b = false) (ending : ends stop = true)
    (there : c.rest = bytes ++ stop :: after) : c.readUntil ends = (Text.decode bytes, pass (bytes.length + 1) c) := by
  have body : c.rest.takeWhile (! ends ·) = bytes := by
    rw [there, List.takeWhile_append_of_pos fun b member => by rw [onward b member]; rfl]
    simp [ending]
  have more : (pass bytes.length c).rest.isEmpty = false := by simp [there]
  simp only [readUntil]
  rw [body, more, Bool.or_false, ← pass_succ, short_pass, pass_eq]

/-- A text that nothing ends is all that is left. -/
theorem readUntil_of_open (unended : ∀ b ∈ c.rest, ends b = false) :
    c.readUntil ends = (Text.decode c.rest, { pass c.rest.length c with short := true }) := by
  have body : c.rest.takeWhile (! ends ·) = c.rest := by
    rw [← List.append_nil c.rest, List.takeWhile_append_of_pos fun b member => by rw [unended b (by simpa using member)]; rfl]
    rfl
  have done : (pass c.rest.length c).rest = [] := by simp
  have past : c.rest.take (c.rest.length + 1) = c.rest := List.take_of_length_le (Nat.le_succ _)
  simp only [readUntil]
  rw [body, done, ← pass_succ]
  simp [pass_eq, past]

end

theorem readText_of_rest (clean : 0 ∉ bytes) (there : c.rest = bytes ++ 0 :: after) :
    ∃ next, c.readText = (Text.decode bytes, next) ∧ next.rest = after ∧ next.short = c.short := by
  have onward : ∀ b ∈ bytes, (b == 0) = false := by
    intro b member
    exact beq_eq_false_iff_ne.2 fun zero => clean (zero ▸ member)
  have length : (bytes ++ [0]).length = bytes.length + 1 := List.length_append
  refine ⟨_, readUntil_of_rest onward rfl there, ?_, short_pass _ c⟩
  rw [rest_pass, there, List.append_cons, ← length, List.drop_left]

theorem readText_of_open (clean : 0 ∉ c.rest) :
    ∃ next, c.readText = (Text.decode c.rest, next) ∧ next.short = true := by
  have unended : ∀ b ∈ c.rest, (b == 0) = false := by
    intro b member
    exact beq_eq_false_iff_ne.2 fun zero => clean (zero ▸ member)
  exact ⟨_, readUntil_of_open unended, rfl⟩

end Cursor

/-- One whole record of a message. Texts are their bytes, without the zero that ends them. -/
inductive Directive where
  | nothing
  | time (seconds : Single)
  | print (body : Bytes)
  | run (body : Bytes)
  | signon (number : UInt8)
  deriving DecidableEq, Repr

namespace Directive

def bytes : Directive → Bytes
  | .nothing => [1]
  | .time seconds => 7 :: Bytes.ofWord32 seconds.bits
  | .print body => 8 :: (body ++ [0])
  | .run body => 9 :: (body ++ [0])
  | .signon number => [25, number]

def WellFormed : Directive → Prop
  | .print body | .run body => 0 ∉ body
  | _ => True

def order : Directive → Order
  | .nothing => .nothing
  | .time seconds => .time seconds
  | .print body => .print (Text.decode body)
  | .run body => .run (Text.decode body)
  | .signon number => .signon number.toNat

end Directive

namespace Order

variable {c : Cursor} {fuel : Nat} {after : Bytes}

/-- The orders from a code on whose byte has been read. -/
def follow (fuel : Nat) (code : Int) (c : Cursor) : List Order :=
  match code with
  | 1 => .nothing :: readWithin fuel c
  | 2 => [.leave]
  | 7 => .time c.readSingle.1 :: readWithin fuel c.readSingle.2
  | 8 => .print c.readText.1 :: readWithin fuel c.readText.2
  | 9 => .run c.readText.1 :: readWithin fuel c.readText.2
  | 25 => .signon c.readByte.1 :: readWithin fuel c.readByte.2
  | _ => [.illegible]

theorem readWithin_of_rest {b : UInt8} (whole : c.short = false) (there : c.rest = b :: after) :
    readWithin (fuel + 1) c = follow fuel b.toNat (Cursor.pass 1 c) := by
  have some : c.rest.isEmpty = false := by rw [there]; rfl
  rw [readWithin, whole, if_neg Bool.false_ne_true, some, if_neg Bool.false_ne_true, Cursor.readByte_of_rest there]
  rfl

theorem readWithin_time (whole : c.short = false) (there : c.rest = 7 :: after) :
    readWithin (fuel + 1) c =
      .time (Cursor.pass 1 c).readSingle.1 :: readWithin fuel (Cursor.pass 1 c).readSingle.2 :=
  readWithin_of_rest whole there

theorem readWithin_print (whole : c.short = false) (there : c.rest = 8 :: after) :
    readWithin (fuel + 1) c =
      .print (Cursor.pass 1 c).readText.1 :: readWithin fuel (Cursor.pass 1 c).readText.2 :=
  readWithin_of_rest whole there

theorem readWithin_run (whole : c.short = false) (there : c.rest = 9 :: after) :
    readWithin (fuel + 1) c =
      .run (Cursor.pass 1 c).readText.1 :: readWithin fuel (Cursor.pass 1 c).readText.2 :=
  readWithin_of_rest whole there

theorem readWithin_signon (whole : c.short = false) (there : c.rest = 25 :: after) :
    readWithin (fuel + 1) c =
      .signon (Cursor.pass 1 c).readByte.1 :: readWithin fuel (Cursor.pass 1 c).readByte.2 :=
  readWithin_of_rest whole there

theorem readWithin_short (short : c.short = true) : readWithin (fuel + 1) c = [.broken] := by
  rw [readWithin, if_pos short]

theorem readWithin_end (whole : c.short = false) (done : c.rest = []) : readWithin (fuel + 1) c = [] := by
  simp [readWithin, whole, done]

/-- A directive is read as its order, and reading goes on behind it. -/
theorem readWithin_directive (fuel : Nat) (directive : Directive) (good : directive.WellFormed) (whole : c.short = false)
    (there : c.rest = directive.bytes ++ after) :
    ∃ next, readWithin (fuel + 1) c = directive.order :: readWithin fuel next ∧ next.short = false ∧
      next.rest = after := by
  have still : (Cursor.pass 1 c).short = false := by rw [Cursor.short_pass, whole]
  cases directive with
  | nothing => exact ⟨_, readWithin_of_rest whole there, still, by simp [there, Directive.bytes]⟩
  | time seconds =>
    have body : (Cursor.pass 1 c).rest = Bytes.ofWord32 seconds.bits ++ after := by simp [there, Directive.bytes]
    refine ⟨Cursor.pass 4 (Cursor.pass 1 c), ?_, by rw [Cursor.short_pass, still], ?_⟩
    · rw [readWithin_time whole there, Cursor.readSingle_of_rest body]
      rfl
    · rw [Cursor.rest_pass, body]
      exact List.drop_left' (Bytes.length_ofNat 4 _)
  | print body =>
    have text : (Cursor.pass 1 c).rest = body ++ 0 :: after := by simp [there, Directive.bytes]
    obtain ⟨next, read, rest, short⟩ := Cursor.readText_of_rest good text
    refine ⟨next, ?_, short.trans still, rest⟩
    rw [readWithin_print whole (there.trans rfl), read]
    rfl
  | run body =>
    have text : (Cursor.pass 1 c).rest = body ++ 0 :: after := by simp [there, Directive.bytes]
    obtain ⟨next, read, rest, short⟩ := Cursor.readText_of_rest good text
    refine ⟨next, ?_, short.trans still, rest⟩
    rw [readWithin_run whole (there.trans rfl), read]
    rfl
  | signon number =>
    have last : (Cursor.pass 1 c).rest = number :: after := by simp [there, Directive.bytes]
    refine ⟨Cursor.pass 1 (Cursor.pass 1 c), ?_, by rw [Cursor.short_pass, still], by rw [Cursor.rest_pass, last]; rfl⟩
    rw [readWithin_signon whole there, Cursor.readByte_of_rest last]
    rfl

end Order

/-- Bytes that begin with no well-formed directive. -/
def Astray (bytes : Bytes) : Prop := ∀ directive : Directive, directive.WellFormed → ¬directive.bytes <+: bytes

/-- What an order at the front of the bytes has done by the time it turns out to be cut short. -/
inductive Order.Stray : Bytes → List Order → Prop where
  | leave (after : Bytes) : Stray (2 :: after) [.leave]
  | illegible {code : UInt8} {after : Bytes} (unknown : code ∉ [1, 2, 7, 8, 9, 25]) : Stray (code :: after) [.illegible]
  | time {after : Bytes} (short : after.length < 4) : Stray (7 :: after) [.time Single.minusOne, .broken]
  | print {after : Bytes} (unended : 0 ∉ after) : Stray (8 :: after) [.print (Text.decode after), .broken]
  | run {after : Bytes} (unended : 0 ∉ after) : Stray (9 :: after) [.run (Text.decode after), .broken]
  | signon : Stray [25] [.signon (-1), .broken]

theorem ended_of_mem (code : UInt8) {after : Bytes} (ended : 0 ∈ after) :
    ∃ body, 0 ∉ body ∧ code :: (body ++ [0]) <+: code :: after := by
  obtain ⟨body, rest, rfl, clean⟩ := List.eq_append_cons_of_mem ended
  exact ⟨body, clean, rest, by simp⟩

theorem Order.follow_unknown {code : UInt8} (unknown : code ∉ [1, 2, 7, 8, 9, 25]) (fuel : Nat) (c : Cursor) :
    follow fuel code.toNat c = [.illegible] := by
  have other (n : UInt8) (known : n ∈ [1, 2, 7, 8, 9, 25]) : (code.toNat : Int) ≠ n.toNat := by
    intro same
    rw [UInt8.toNat.inj (Int.ofNat.inj same)] at unknown
    exact unknown known
  unfold follow
  split
  · exact absurd ‹_› (other 1 (by decide))
  · exact absurd ‹_› (other 2 (by decide))
  · exact absurd ‹_› (other 7 (by decide))
  · exact absurd ‹_› (other 8 (by decide))
  · exact absurd ‹_› (other 9 (by decide))
  · exact absurd ‹_› (other 25 (by decide))
  · rfl

theorem Order.readWithin_astray {c : Cursor} {fuel : Nat} (whole : c.short = false) (more : c.rest ≠ [])
    (astray : Astray c.rest) : Order.Stray c.rest (Order.readWithin (fuel + 2) c) := by
  have still : (Cursor.pass 1 c).short = false := by rw [Cursor.short_pass, whole]
  cases there : c.rest with
  | nil => exact absurd there more
  | cons code after =>
    rw [there] at astray
    have behind : (Cursor.pass 1 c).rest = after := by simp [there]
    by_cases known : code ∈ [1, 2, 7, 8, 9, 25]
    · simp only [List.mem_cons, List.not_mem_nil, or_false] at known
      rcases known with rfl | rfl | rfl | rfl | rfl | rfl
      · exact absurd ⟨after, rfl⟩ (astray .nothing trivial)
      · rw [readWithin_of_rest whole there]
        exact .leave after
      · have short : after.length < 4 := by
          refine Nat.lt_of_not_le fun long => astray (.time ⟨Bytes.toWord32 (after.take 4)⟩) trivial ?_
          rw [Directive.bytes, Bytes.ofWord32_toWord32 (List.length_take_of_le long)]
          exact ⟨after.drop 4, by simp⟩
        rw [readWithin_time whole there, Cursor.readSingle, Cursor.field_of_short (by rw [behind]; exact short),
          readWithin_short rfl]
        exact .time short
      · have unended : 0 ∉ after := by
          intro ended
          obtain ⟨body, clean, begins⟩ := ended_of_mem 8 ended
          exact astray (.print body) clean begins
        obtain ⟨next, read, short⟩ := Cursor.readText_of_open (c := Cursor.pass 1 c) (by rw [behind]; exact unended)
        rw [readWithin_print whole there, read, behind, readWithin_short short]
        exact .print unended
      · have unended : 0 ∉ after := by
          intro ended
          obtain ⟨body, clean, begins⟩ := ended_of_mem 9 ended
          exact astray (.run body) clean begins
        obtain ⟨next, read, short⟩ := Cursor.readText_of_open (c := Cursor.pass 1 c) (by rw [behind]; exact unended)
        rw [readWithin_run whole there, read, behind, readWithin_short short]
        exact .run unended
      · cases after with
        | nil =>
          rw [readWithin_signon whole there, Cursor.readByte, Cursor.field_of_short (by rw [behind]; decide),
            readWithin_short rfl]
          exact .signon
        | cons number after => exact absurd ⟨after, rfl⟩ (astray (.signon number) trivial)
    · rw [readWithin_of_rest whole there, follow_unknown known]
      exact .illegible known

/-- The bytes of the directives one after another. -/
def Directive.spell (directives : List Directive) : Bytes := directives.flatMap Directive.bytes

theorem Directive.length_bytes_pos (directive : Directive) : 0 < directive.bytes.length := by
  cases directive <;> simp [bytes]

theorem Directive.length_le_spell (directives : List Directive) : directives.length ≤ (spell directives).length := by
  induction directives with
  | nil => exact Nat.le_refl 0
  | cons directive rest ih =>
    have some := length_bytes_pos directive
    simp only [spell, List.flatMap_cons, List.length_append, List.length_cons] at ih ⊢
    omega

theorem Order.readWithin_spelled {directives : List Directive} (good : ∀ directive ∈ directives, directive.WellFormed)
    {c : Cursor} {after : Bytes} (fuel : Nat) (whole : c.short = false)
    (there : c.rest = Directive.spell directives ++ after) :
    ∃ next, readWithin (directives.length + fuel) c = directives.map Directive.order ++ readWithin fuel next ∧
      next.short = false ∧ next.rest = after := by
  induction directives generalizing c with
  | nil => exact ⟨c, by simp, whole, there⟩
  | cons directive rest ih =>
    have begins : c.rest = directive.bytes ++ (Directive.spell rest ++ after) := by
      rw [there, ← List.append_assoc]
      rfl
    obtain ⟨m, read, still, behind⟩ := readWithin_directive (rest.length + fuel) directive
      (good directive List.mem_cons_self) whole begins
    obtain ⟨next, more, last, ends⟩ := ih (fun other member => good other (List.mem_cons_of_mem _ member)) still behind
    refine ⟨next, ?_, last, ends⟩
    rw [List.length_cons, Nat.add_right_comm, read, more]
    rfl

/-- The orders of a message: those of its directives, and then what is read of the rest. -/
theorem Order.ofBytes_spelled {directives : List Directive} (good : ∀ directive ∈ directives, directive.WellFormed)
    (after : Bytes) : ∃ next fuel, ofBytes (Directive.spell directives ++ after) =
      directives.map Directive.order ++ readWithin (fuel + 2) next ∧ next.short = false ∧ next.rest = after := by
  have enough := Directive.length_le_spell directives
  let message := Directive.spell directives ++ after
  let fuel := message.length - directives.length
  have count : message.length + 2 = directives.length + (fuel + 2) := by
    have whole : message.length = (Directive.spell directives).length + after.length := List.length_append
    omega
  obtain ⟨next, read, whole, rest⟩ := readWithin_spelled (c := Cursor.ofBytes message) good (fuel + 2) rfl rfl
  exact ⟨next, fuel, by rw [← read, ← count]; rfl, whole, rest⟩

end Message

end GameHost
