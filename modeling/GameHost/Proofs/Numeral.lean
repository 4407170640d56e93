import GameHost.Proofs.Demo.Truncated

/-!
Whole numbers as they are written. A numeral of any length after blanks and a sign, decimal or hexadecimal, is read as
the number that it denotes, wrapped to a signed word of 32 bits: digit by digit, and the sign last, words go along with
whole numbers. So every word is read back from its decimal text, and every track from its line, the least ones too.
-/
namespace GameHost.Numeral

/-- The digits of both bases in order. -/
def figures : Text := "0123456789abcdef"

/-- What a character stands for as a digit. One that is no digit stands for more than any digit. -/
def figure (c : Char) : Nat := figures.idxOf c.toLower

structure Digits (base : Nat) (digits : Text) : Prop where
  some : digits ≠ []
  below : ∀ c ∈ digits, figure c < base

/-- The number that digits denote, each by its place. -/
def denoted (base : Nat) : Text → Nat
  | [] => 0
  | c :: rest => figure c * Nat.pow base rest.length + denoted base rest

/-- No further digit of the base follows. -/
def Ended (base : Nat) (after : Text) : Prop := ∀ c ∈ after.head?, base ≤ figure c

/-- A text with a hexadecimal numeral in front. -/
def Hexadecimal (text : Text) : Prop :=
  ∃ marker c rest, text = '0' :: marker :: c :: rest ∧ (marker = 'x' ∨ marker = 'X') ∧ figure c < 16

/-- A numeral, what comes after it, and the number that it denotes. Where both bases could be meant it is the
hexadecimal one. -/
inductive Opens : Text → Text → Nat → Prop where
  | hexadecimal {marker : Char} {digits after : Text} (marks : marker = 'x' ∨ marker = 'X') (good : Digits 16 digits)
      (ended : Ended 16 after) : Opens ('0' :: marker :: digits) after (denoted 16 digits)
  | decimal {digits after : Text} (good : Digits 10 digits) (ended : Ended 10 after)
      (plain : ¬ Hexadecimal (digits ++ after)) : Opens digits after (denoted 10 digits)

inductive Sign where
  | none
  | plus
  | minus
  deriving DecidableEq

namespace Sign

def text : Sign → Text
  | .none => []
  | .plus => ['+']
  | .minus => ['-']

def negative (sign : Sign) : Bool := sign == .minus

def signed (sign : Sign) (n : Nat) : Int := if sign.negative then -n else n

end Sign

section

variable {c : Char}

theorem toNat_le_toLower (c : Char) : c.toNat ≤ max 90 c.toLower.toNat := by
  unfold Char.toLower
  split
  case isTrue capital =>
    have high : c.val.toNat ≤ 90 := capital.2
    exact Nat.le_trans high (Nat.le_max_left ..)
  case isFalse => exact Nat.le_max_right ..

theorem ascii_of_figure (digit : figure c < 16) : c.toNat < 128 := by
  have member : c.toLower ∈ figures := List.idxOf_lt_length_iff.1 digit
  have small : (figures.all fun d => decide (d.toNat < 128)) = true := by decide
  have lower : c.toLower.toNat < 128 := of_decide_eq_true (List.all_eq_true.1 small _ member)
  have bound := toNat_le_toLower c
  omega

theorem ascii_of_isHexDigit (digit : isHexDigit c = true) : c.toNat < 128 := by
  simp only [isHexDigit, Bool.or_eq_true, Bool.and_eq_true, decide_eq_true_eq] at digit
  rcases digit with (decimal | ⟨_, high⟩) | ⟨_, high⟩
  · have bounds := Demo.digit_bounds decimal
    omega
  · have bound : c.toNat ≤ 102 := high
    omega
  · have bound : c.toNat ≤ 70 := high
    omega

theorem digits_known : ∀ code < 128, let c := Char.ofNat code
    (isHexDigit c = true ↔ figure c < 16) ∧ (c.isDigit = true ↔ figure c < 10) ∧ (figure c < 16 → hexDigit c = figure c) ∧
      (figure c < 10 → digit c = figure c) ∧ (figure c < 16 → Text.isBlank c = false) := by
  decide +kernel

/-- No character beyond ASCII is a digit, and of the others all is known. -/
theorem known_of_ascii (ascii : c.toNat < 128) :
    (isHexDigit c = true ↔ figure c < 16) ∧ (c.isDigit = true ↔ figure c < 10) ∧ (figure c < 16 → hexDigit c = figure c) ∧
      (figure c < 10 → digit c = figure c) ∧ (figure c < 16 → Text.isBlank c = false) := by
  have known := digits_known c.toNat ascii
  rwa [Char.ofNat_toNat] at known

theorem isHexDigit_iff : isHexDigit c = true ↔ figure c < 16 := by
  constructor
  · intro digit
    exact (known_of_ascii (ascii_of_isHexDigit digit)).1.1 digit
  · intro below
    exact (known_of_ascii (ascii_of_figure below)).1.2 below

theorem isDigit_iff : c.isDigit = true ↔ figure c < 10 := by
  constructor
  · intro digit
    have hexadecimal : isHexDigit c = true := by simp [isHexDigit, digit]
    exact (known_of_ascii (ascii_of_isHexDigit hexadecimal)).2.1.1 digit
  · intro below
    exact (known_of_ascii (ascii_of_figure (by omega))).2.1.2 below

theorem hexDigit_eq (below : figure c < 16) : hexDigit c = figure c :=
  (known_of_ascii (ascii_of_figure below)).2.2.1 below

theorem digit_eq (below : figure c < 10) : digit c = figure c :=
  (known_of_ascii (ascii_of_figure (by omega))).2.2.2.1 below

theorem isBlank_of_figure (below : figure c < 16) : Text.isBlank c = false :=
  (known_of_ascii (ascii_of_figure below)).2.2.2.2 below

end

section

variable {base : Nat} {digits after : Text}

theorem foldl_figures (base : Nat) (digits : Text) (start : Nat) :
    (digits.map figure).foldl (fun n d => base * n + d) start = start * Nat.pow base digits.length + denoted base digits := by
  induction digits generalizing start with
  | nil => exact (Nat.mul_one start).symm
  | cons c rest ih =>
    have power : Nat.pow base (rest.length + 1) = Nat.pow base rest.length * base := rfl
    rw [List.map_cons, List.foldl_cons, ih, List.length_cons, denoted, power, Nat.add_mul, Nat.add_assoc]
    congr 1
    rw [Nat.mul_comm base, Nat.mul_assoc, Nat.mul_comm base]

/-- Words go along with the numbers that they are cut from, digit by digit. -/
theorem word_figures (base : Nat) (digits : Text) :
    word (Int32.ofNat base) (digits.map figure) = Int32.ofNat (denoted base digits) := by
  have whole := foldl_figures base digits 0
  rw [Nat.zero_mul, Nat.zero_add] at whole
  rw [← whole]
  exact word_eq_ofNat base (digits.map figure) 0

theorem takeWhile_digits {test : Char → Bool} (test_iff : ∀ c, test c = true ↔ figure c < base)
    (good : Digits base digits) (ended : Ended base after) : (digits ++ after).takeWhile test = digits := by
  rw [List.takeWhile_append_of_pos fun c member => (test_iff c).2 (good.below c member)]
  cases after with
  | nil => exact List.append_nil digits
  | cons c rest =>
    have other : ¬ test c = true := fun digit => absurd ((test_iff c).1 digit) (Nat.not_lt.2 (ended c rfl))
    rw [List.takeWhile_cons_of_neg other, List.append_nil]

theorem word_hexadecimal (good : Digits 16 digits) (ended : Ended 16 after) :
    word 16 (((digits ++ after).takeWhile isHexDigit).map hexDigit) = Int32.ofNat (denoted 16 digits) := by
  rw [takeWhile_digits (fun _ => isHexDigit_iff) good ended]
  have values : digits.map hexDigit = digits.map figure :=
    List.map_congr_left fun c member => hexDigit_eq (good.below c member)
  rw [values]
  exact word_figures 16 digits

theorem word_decimal (good : Digits 10 digits) (ended : Ended 10 after) :
    word 10 (((digits ++ after).takeWhile Char.isDigit).map digit) = Int32.ofNat (denoted 10 digits) := by
  rw [takeWhile_digits (fun _ => isDigit_iff) good ended]
  have values : digits.map digit = digits.map figure :=
    List.map_congr_left fun c member => digit_eq (good.below c member)
  rw [values]
  exact word_figures 10 digits

end

/-- The number at the start of a text without a sign. -/
def size (body : Text) : Int32 :=
  match hexadecimal? body, quoted? body with
  | some digits, _ => word 16 ((digits.takeWhile isHexDigit).map hexDigit)
  | none, some byte => Int32.ofNat byte
  | none, none => word 10 ((body.takeWhile Char.isDigit).map digit)

theorem toInt32_of_split {text body : Text} {negative : Bool} (split : splitSign (Text.trimStart text) = (negative, body)) :
    toInt32 text = if negative then -size body else size body := by
  unfold toInt32
  rw [split]
  rfl

theorem hexadecimal?_some {body rest : Text} (found : hexadecimal? body = some rest) :
    ∃ marker c more, body = '0' :: marker :: c :: more ∧ (marker = 'x' ∨ marker = 'X') ∧ rest = c :: more := by
  unfold hexadecimal? at found
  split at found
  case h_1 marker c more =>
    split at found
    case isTrue marks => exact ⟨marker, c, more, rfl, by simpa using marks, (Option.some.inj found).symm⟩
    case isFalse => cases found
  case h_2 => cases found

theorem quoted?_of_figure {c : Char} (digit : figure c < 16) (rest : Text) : quoted? (c :: rest) = none := by
  unfold quoted?
  split
  case h_1 first => exact absurd digit (by rw [(List.cons.inj first).1]; decide)
  case h_2 => rfl

/-- Of decimal digits only a zero stands before the marker of a hexadecimal numeral. -/
theorem zero_of_marked {digits after more : Text} {marker : Char} (good : Digits 10 digits)
    (split : digits ++ after = '0' :: marker :: more) (marks : marker = 'x' ∨ marker = 'X') : digits = ['0'] := by
  match digits, good, split with
  | [], good, _ => exact absurd rfl good.some
  | [c], _, split => rw [(List.cons.inj split).1]
  | c :: second :: rest, good, split =>
    have decimal := good.below second (by simp)
    rw [(List.cons.inj (List.cons.inj split).2).1] at decimal
    rcases marks with rfl | rfl <;> exact absurd decimal (by decide)

theorem size_of_opens {numeral after : Text} {n : Nat} (opens : Opens numeral after n) :
    size (numeral ++ after) = Int32.ofNat n := by
  cases opens with
  | @hexadecimal marker digits _ marks good ended =>
    obtain ⟨c, rest, rfl⟩ := List.exists_cons_of_ne_nil good.some
    have found : hexadecimal? ('0' :: marker :: (c :: rest) ++ after) = some (c :: rest ++ after) := by
      simp [hexadecimal?, marks]
    unfold size
    rw [found]
    exact word_hexadecimal good ended
  | decimal good ended plain =>
    cases found : hexadecimal? (numeral ++ after) with
    | none =>
      have unquoted : quoted? (numeral ++ after) = none := by
        obtain ⟨c, rest, rfl⟩ := List.exists_cons_of_ne_nil good.some
        have below := good.below c List.mem_cons_self
        exact quoted?_of_figure (by omega) (rest ++ after)
      unfold size
      rw [found, unquoted]
      exact word_decimal good ended
    | some hex =>
      -- No hexadecimal digit stands behind the marker, so both readings are zero.
      obtain ⟨marker, d, more, split, marks, rfl⟩ := hexadecimal?_some found
      have none : ¬ isHexDigit d = true := by
        intro digit
        exact plain ⟨marker, d, more, split, marks, isHexDigit_iff.1 digit⟩
      have zero := zero_of_marked good split marks
      subst zero
      unfold size
      rw [found]
      change word 16 (((d :: more).takeWhile isHexDigit).map hexDigit) = _
      rw [List.takeWhile_cons_of_neg none]
      decide

theorem figure_of_opens {numeral after : Text} {n : Nat} (opens : Opens numeral after n) :
    ∃ c rest, numeral = c :: rest ∧ figure c < 16 := by
  cases opens with
  | hexadecimal => exact ⟨_, _, rfl, by decide⟩
  | decimal good =>
    obtain ⟨c, rest, rfl⟩ := List.exists_cons_of_ne_nil good.some
    have below := good.below c List.mem_cons_self
    exact ⟨c, rest, rfl, by omega⟩

theorem splitSign_signed (sign : Sign) {c : Char} (digit : figure c < 16) (rest : Text) :
    splitSign (sign.text ++ c :: rest) = (sign.negative, c :: rest) := by
  cases sign with
  | plus | minus => rfl
  | none =>
    change splitSign (c :: rest) = (false, c :: rest)
    unfold splitSign
    split
    case h_1 first => exact absurd digit (by rw [(List.cons.inj first).1]; decide)
    case h_2 first => exact absurd digit (by rw [(List.cons.inj first).1]; decide)
    case h_3 => rfl

theorem trimStart_signed {blanks : Text} (blank : ∀ c ∈ blanks, Text.isBlank c = true) (sign : Sign) {c : Char}
    (digit : figure c < 16) (rest : Text) :
    Text.trimStart (blanks ++ (sign.text ++ c :: rest)) = sign.text ++ c :: rest := by
  have black : ¬ Text.isBlank c = true := by simp [isBlank_of_figure digit]
  rw [Text.trimStart, List.dropWhile_append_of_pos blank]
  cases sign with
  | plus | minus => exact List.dropWhile_cons_of_neg (by decide)
  | none => exact List.dropWhile_cons_of_neg black

/-- A numeral is read as the word that its number wraps to. -/
theorem toInt32_of_opens {blanks numeral after : Text} {n : Nat} (blank : ∀ c ∈ blanks, Text.isBlank c = true) (sign : Sign)
    (opens : Opens numeral after n) :
    toInt32 (blanks ++ sign.text ++ numeral ++ after) = Int32.ofInt (sign.signed n) := by
  obtain ⟨c, rest, rfl, digit⟩ := figure_of_opens opens
  have split : splitSign (Text.trimStart (blanks ++ sign.text ++ (c :: rest) ++ after)) =
      (sign.negative, c :: rest ++ after) := by
    simp only [List.append_assoc, List.cons_append]
    rw [trimStart_signed blank sign digit, splitSign_signed sign digit]
  rw [toInt32_of_split split, size_of_opens opens, Sign.signed]
  split
  · rw [Int32.ofInt_neg, Int32.ofInt_eq_ofNat]
  · rw [Int32.ofInt_eq_ofNat]

theorem digits_ofNat (n : Nat) : Digits 10 (Text.ofNat n) := by
  constructor
  case some => exact Nat.toDigits_ne_nil
  case below => exact fun c member => isDigit_iff.1 (Nat.isDigit_of_mem_toDigits (by decide) (by decide) member)

theorem denoted_ofNat (n : Nat) : denoted 10 (Text.ofNat n) = n := by
  have values : (Text.ofNat n).map figure = (Text.ofNat n).map fun c => c.toNat - '0'.toNat :=
    List.map_congr_left fun c member => (digit_eq ((digits_ofNat n).below c member)).symm
  have whole := foldl_figures 10 (Text.ofNat n) 0
  rw [Nat.zero_mul, Nat.zero_add, values, List.foldl_map] at whole
  rw [← whole]
  exact Nat.ofDigitChars_toDigits (by decide) (by decide)

theorem opens_ofNat (n : Nat) : Opens (Text.ofNat n) [] n := by
  have opens : Opens (Text.ofNat n) [] (denoted 10 (Text.ofNat n)) := by
    refine .decimal (digits_ofNat n) (by simp [Ended]) ?_
    rintro ⟨marker, c, rest, split, marks, _⟩
    have below := (digits_ofNat n).below marker (by rw [← List.append_nil (Text.ofNat n), split]; simp)
    rcases marks with rfl | rfl <;> exact absurd below (by decide)
  rwa [denoted_ofNat] at opens

/-- The decimal text of a whole number is its sign and the numeral of its size. -/
theorem ofInt_signed (i : Int) : ∃ sign n, Text.ofInt i = [] ++ Sign.text sign ++ Text.ofNat n ++ [] ∧ sign.signed n = i := by
  cases i with
  | ofNat n => exact ⟨.none, n, (List.append_nil _).symm, rfl⟩
  | negSucc n => exact ⟨.minus, n + 1, (List.append_nil _).symm, rfl⟩

/-- A word is read back from its decimal text. -/
theorem toInt32_ofInt (word : Int32) : toInt32 (Text.ofInt word.toInt) = word := by
  obtain ⟨sign, n, text, number⟩ := ofInt_signed word.toInt
  have none : ∀ c ∈ ([] : Text), Text.isBlank c = true := by simp
  rw [text, toInt32_of_opens none sign (opens_ofNat n), number]
  exact Int32.ofInt_toInt word

/-- Numerals are read modulo the size of a word, with their sign, whatever their length and whatever comes before and
after them; and every word is read back from its own text, and every track from its line. -/
theorem numerals_wrap :
    (∀ (blanks numeral after : Text) (sign : Sign) (n : Nat), (∀ c ∈ blanks, Text.isBlank c = true) →
      Opens numeral after n →
      (toInt32 (blanks ++ sign.text ++ numeral ++ after)).toInt = Int.bmod (sign.signed n) (Nat.pow 2 32)) ∧
    (∀ word : Int32, toInt32 (Text.ofInt word.toInt) = word) ∧
    ∀ (track : Int32) (file : Reader) (disk : Disk) (after : Bytes), file.rest disk = Demo.trackLine track ++ after →
      Demo.trackOf (file.line disk).1 = track ∧ (file.line disk).2.rest disk = after := by
  refine ⟨?_, toInt32_ofInt, ?_⟩
  · intro blanks numeral after sign n blank opens
    rw [toInt32_of_opens blank sign opens]
    exact Int32.toInt_ofInt
  · intro track file disk after there
    obtain ⟨rest, line, left⟩ := Demo.line_of_rest there
    rw [line]
    exact ⟨Demo.trackOf_number track, left⟩

/-- A hexadecimal numeral longer than a word, and the line of the least track in a demo that goes on. -/
theorem long_numeral_wraps :
    ∃ (blanks numeral after : Text) (file : Reader) (disk : Disk), blanks = ['\u3000', '\t'] ∧
      numeral = "0XfFfFfFfFf5".toList ∧ after = "g5".toList ∧ Opens numeral after 1099511627765 ∧
      (toInt32 (blanks ++ Sign.minus.text ++ numeral ++ after)).toInt = 11 ∧
      file.rest disk = Demo.trackLine Int32.minValue ++ [1] ∧ Demo.trackOf (file.line disk).1 = Int32.minValue := by
  let after : Text := ['g', '5']
  let place : Place := ["r.dem"]
  let disk : Disk := ⟨[(place, .file (Packed.ofBytes (Demo.trackLine Int32.minValue ++ [1])))], []⟩
  have blank : ∀ c ∈ ['\u3000', '\t'], Text.isBlank c = true := List.all_eq_true.1 (by decide)
  have below : ("fFfFfFfFf5".toList.all fun c => decide (figure c < 16)) = true := by decide
  have good : Digits 16 "fFfFfFfFf5".toList :=
    ⟨by decide, fun c member => of_decide_eq_true (List.all_eq_true.1 below c member)⟩
  have ended : Ended 16 after := by
    rintro c ⟨⟩
    decide
  have number : denoted 16 "fFfFfFfFf5".toList = 1099511627765 := by decide +kernel
  have opens : Opens "0XfFfFfFfFf5".toList after 1099511627765 := number ▸ .hexadecimal (.inr rfl) good ended
  have there : (Reader.atStart place).rest disk = Demo.trackLine Int32.minValue ++ [1] := by decide +kernel
  obtain ⟨wrap, _, track⟩ := numerals_wrap
  exact ⟨_, _, after, _, disk, rfl, rfl, rfl, opens, wrap _ _ _ .minus _ blank opens, there, (track _ _ _ _ there).1⟩

end GameHost.Numeral
