import GameHost.Binary

/-!
Single precision: the values of console variables and the angles and times of server messages.
-/
namespace GameHost

/-- A single precision number as its bit pattern, so that the two zeros and all nans stay apart. -/
structure Single where
  bits : UInt32
  deriving DecidableEq, Repr

namespace Single
open Binary

def value (x : Single) : Value := Format.single.value x.bits.toNat

def ofPattern (pattern : Nat) : Single := ⟨UInt32.ofNat pattern⟩

def zero : Single := ⟨0⟩

def minusOne : Single := ⟨0xBF800000⟩

def negate (x : Single) : Single := ⟨x.bits ^^^ 0x80000000⟩

/-- The number nearest to a whole number. -/
def ofInt (n : Int) : Single :=
  ofPattern (Format.single.ofScaled (decide (n < 0)) n.natAbs 0)

/-- The number nearest to a whole number of fractions `2 ^ exponent`. -/
def ofScaled (n : Int) (exponent : Int) : Single :=
  ofPattern (Format.single.ofScaled (decide (n < 0)) n.natAbs exponent)

/-- The number nearest to the fraction `num / den`. -/
def ofFraction (num den : Nat) : Single := ofPattern (Format.single.round num den)

def isNan (x : Single) : Bool := x.value == .nan

/-- A whole number clamped to the signed words of 32 bits. -/
def clamp (n : Int) : Int32 := Int32.ofInt (max (-2147483648) (min n 2147483647))

/-- The greatest whole number not above the number, as a word; out of range it is the nearest word, for a
nan it is zero. -/
def floorWord (x : Single) : Int32 :=
  match x.value with
  | .nan => 0
  | .infinite negative => if negative then clamp (-2147483648) else clamp 2147483647
  | .finite negative m e =>
    let (num, den) := fraction m e
    clamp (Int.fdiv (signed negative num) den)

/-- The number times a whole number, rounded to the nearest whole number with a half away from zero, as a
word; out of range it is the nearest word, for a nan it is zero. -/
def roundWord (x : Single) (factor : Nat) : Int32 :=
  match x.value with
  | .nan => 0
  | .infinite negative => if negative then clamp (-2147483648) else clamp 2147483647
  | .finite negative m e =>
    let (num, den) := fraction m e
    clamp (signed negative (nearestAway (num * factor) den))

/-- The whole number that the number is, if it is one. -/
def whole? (x : Single) : Option Int :=
  match x.value with
  | .finite negative m e =>
    let (num, den) := fraction m e
    if num % den == 0 then some (signed negative (num / den)) else none
  | _ => none

end Single

end GameHost
