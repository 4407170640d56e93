/-!
Binary floating point, exactly. A bit pattern denotes a sign, a significand and a power of two; every
operation works on those whole numbers and rounds once, to the nearest pattern and to the even one of two
equally near. Nothing here depends on the machine's own arithmetic.
-/
namespace GameHost.Binary

/-- A quotient rounded to the nearest whole number, a half to the even one. -/
def nearest (num den : Nat) : Nat :=
  let whole := num / den
  let rest := num % den
  if den < 2 * rest || (den == 2 * rest && whole % 2 == 1) then whole + 1 else whole

/-- A quotient rounded to the nearest whole number, a half away from zero. -/
def nearestAway (num den : Nat) : Nat := (2 * num + den) / (2 * den)

/-- A width of floating point numbers. -/
structure Format where
  /-- Bits of the significand, the leading one included. -/
  digits : Nat
  /-- The exponent of the least positive number. -/
  least : Int
  /-- Bits of the whole pattern. -/
  width : Nat

def Format.single : Format := ⟨24, -149, 32⟩

def Format.double : Format := ⟨53, -1074, 64⟩

/-- The pattern of positive infinity; patterns above it, sign aside, are no numbers. -/
def Format.infinity (format : Format) : Nat :=
  (Nat.pow 2 (format.width - format.digits) - 1) * Nat.pow 2 (format.digits - 1)

def Format.signBit (format : Format) : Nat := Nat.pow 2 (format.width - 1)

/-- What a pattern denotes. A finite value is `significand * 2 ^ exponent` with the given sign. -/
inductive Value where
  | nan
  | infinite (negative : Bool)
  | finite (negative : Bool) (significand : Nat) (exponent : Int)
  deriving DecidableEq, Repr

def Format.value (format : Format) (pattern : Nat) : Value :=
  let negative := pattern / format.signBit % 2 == 1
  let size := pattern % format.signBit
  let hidden := Nat.pow 2 (format.digits - 1)
  if format.infinity < size then .nan
  else if size == format.infinity then .infinite negative
  else if size < hidden then .finite negative size format.least
  else .finite negative (size % hidden + hidden) (format.least + (size / hidden : Nat) - 1)

/-- The pattern nearest to the positive fraction `num / den`, infinity if it is past the greatest number. -/
def Format.round (format : Format) (num den : Nat) : Nat :=
  if num == 0 then 0 else
  let scaled (exponent : Int) : Nat × Nat :=
    if 0 ≤ exponent then (num, den * Nat.pow 2 exponent.toNat)
    else (num * Nat.pow 2 (-exponent).toNat, den)
  let guess := max format.least ((num.log2 : Int) - (den.log2 : Int) - format.digits)
  let exponent :=
    if Nat.pow 2 format.digits ≤ (scaled guess).1 / (scaled guess).2 then guess + 1 else guess
  let significand := nearest (scaled exponent).1 (scaled exponent).2
  let hidden := Nat.pow 2 (format.digits - 1)
  let pattern :=
    if significand < hidden then significand
    else (exponent - format.least + 1).toNat * hidden + (significand - hidden)
  min pattern format.infinity

/-- The pattern nearest to `significand * 2 ^ exponent`. -/
def Format.ofScaled (format : Format) (negative : Bool) (significand : Nat) (exponent : Int) : Nat :=
  (if negative then format.signBit else 0) +
    if 0 ≤ exponent then format.round (significand * Nat.pow 2 exponent.toNat) 1
    else format.round significand (Nat.pow 2 (-exponent).toNat)

/-- The fraction of whole numbers that a finite value is, sign aside. -/
def fraction (significand : Nat) (exponent : Int) : Nat × Nat :=
  if 0 ≤ exponent then (significand * Nat.pow 2 exponent.toNat, 1)
  else (significand, Nat.pow 2 (-exponent).toNat)

def signed (negative : Bool) (n : Nat) : Int := if negative then -(n : Int) else n

/-- Two values by size; the two zeros are equal and nothing compares with a nan. -/
def Value.compare : Value → Value → Option Ordering
  | .nan, _ | _, .nan => none
  | .infinite a, .infinite b => some (Ord.compare b.toNat a.toNat)
  | .infinite negative, .finite .. => some (if negative then .lt else .gt)
  | .finite .., .infinite negative => some (if negative then .gt else .lt)
  | .finite s m e, .finite t n k =>
    let base := min e k
    some (Ord.compare (signed s (m * Nat.pow 2 (e - base).toNat)) (signed t (n * Nat.pow 2 (k - base).toNat)))

end GameHost.Binary
