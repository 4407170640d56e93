import GameHost.Binary.Decimal
import GameHost.Text.Unicode

/-!
Lenient numerals. A number is read from the start of a text after blanks and a sign: in hexadecimal after
`0x`, as the first byte of the character after an apostrophe, and in decimal otherwise. What follows the
number is ignored, and a text without a number counts as zero.
-/
namespace GameHost.Numeral

/-- Whether a minus sign opens the text, and the text after its sign. -/
def splitSign : Text → Bool × Text
  | '-' :: rest => (true, rest)
  | '+' :: rest => (false, rest)
  | text => (false, text)

def digit (c : Char) : Nat := c.toNat - '0'.toNat

def isHexDigit (c : Char) : Bool :=
  c.isDigit || ('a' ≤ c && c ≤ 'f') || ('A' ≤ c && c ≤ 'F')

def hexDigit (c : Char) : Nat :=
  if c.isDigit then c.toNat - 48 else if 'a' ≤ c then c.toNat - 87 else c.toNat - 55

/-- The hexadecimal digits of a text that has the marker of a hexadecimal numeral and goes on after it. -/
def hexadecimal? : Text → Option Text
  | '0' :: x :: c :: rest => if x == 'x' || x == 'X' then some (c :: rest) else none
  | _ => none

/-- The first byte of the character after an apostrophe. -/
def quoted? : Text → Option Nat
  | '\'' :: c :: _ => (Text.encode [c]).head?.map UInt8.toNat
  | _ => none

/-- The word spelled by digits, modulo the size of the word. -/
def word (base : Int32) (digits : List Nat) : Int32 :=
  digits.foldl (fun n d => n * base + Int32.ofNat d) 0

/-- A whole number as a signed word of 32 bits, larger numerals wrapping around. -/
def toInt32 (text : Text) : Int32 :=
  let (negative, body) := splitSign (Text.trimStart text)
  let size :=
    match hexadecimal? body, quoted? body with
    | some digits, _ => word 16 ((digits.takeWhile isHexDigit).map hexDigit)
    | none, some byte => Int32.ofNat byte
    | none, none => word 10 ((body.takeWhile Char.isDigit).map digit)
  if negative then -size else size

/-- A decimal numeral `whole.places` times a power of ten. -/
structure Scientific where
  digits : Text
  exponent : Int

/-- The exponent written after `e` or `E`, or zero if no digits follow. -/
def exponentPart : Text → Int
  | [] => 0
  | mark :: rest =>
    if mark == 'e' || mark == 'E' then
      let (negative, body) := splitSign rest
      let size := (body.takeWhile Char.isDigit).foldl (fun n c => n * 10 + digit c) 0
      Binary.signed negative size
    else 0

/-- The longest decimal numeral at the start of a text; none if it has no digit before its exponent. -/
def scientific? (text : Text) : Option Scientific :=
  let whole := text.takeWhile Char.isDigit
  let rest := text.dropWhile Char.isDigit
  let places := if rest.head? == some '.' then (rest.drop 1).takeWhile Char.isDigit else []
  let after := if rest.head? == some '.' then (rest.drop 1).dropWhile Char.isDigit else rest
  let digits := whole ++ places
  if digits.isEmpty then none else some ⟨digits, exponentPart after - places.length⟩

/-- The single precision number nearest to a decimal numeral. Numerals with a magnitude beyond `10 ^ 60` or
below `10 ^ -60` are past the greatest and the least number. -/
def Scientific.toSingle (s : Scientific) : Single :=
  let coefficient := s.digits.foldl (fun n c => n * 10 + digit c) 0
  let magnitude := ((Text.ofNat coefficient).length : Int) + s.exponent
  if coefficient == 0 || magnitude < -60 then Single.zero
  else if 60 < magnitude then Single.ofPattern Binary.Format.single.infinity
  else if 0 ≤ s.exponent then Single.ofFraction (coefficient * Nat.pow 10 s.exponent.toNat) 1
  else Single.ofFraction coefficient (Nat.pow 10 (-s.exponent).toNat)

/-- A number as a single precision value. A text without digits is positive zero whatever its sign. -/
def toSingle (text : Text) : Single :=
  let start := Text.trimStart text
  let (negative, body) := splitSign start
  let sign (x : Single) : Single := if negative then x.negate else x
  match hexadecimal? body, quoted? body with
  | some _, _ => Single.ofInt (toInt32 start).toInt
  | none, some byte => sign (Single.ofInt byte)
  | none, none =>
    match scientific? body with
    | some s => sign s.toSingle
    | none => Single.zero

/-- The text of a number in a variable: a whole number below a thousand million has no point, and any other
number is written with the fewest digits that read back. -/
def ofSingle (x : Single) : Text :=
  match x.whole? with
  | some n => if n.natAbs < 1000000000 then Text.ofInt n else Binary.Format.single.shortest x.value
  | none => Binary.Format.single.shortest x.value

end GameHost.Numeral
