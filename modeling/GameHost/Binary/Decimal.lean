import GameHost.Binary.Double
import GameHost.Text

/-!
Decimal text of floating point numbers: with a fixed number of places, rounded from the exact value, or with
the fewest digits that read back as the same number. Neither form uses an exponent.
-/
namespace GameHost.Binary

/-- A whole number of units `10 ^ -places` in positional notation, all places written. -/
def positional (units places : Nat) : Text :=
  let digits := Text.ofNat units
  let padded := List.replicate (places + 1 - digits.length) '0' ++ digits
  let cut := padded.length - places
  if places == 0 then padded else padded.take cut ++ '.' :: padded.drop cut

def signText (negative : Bool) : Text := if negative then ['-'] else []

/-- The value to a number of places, a half to the even digit. A zero keeps its sign. -/
def Value.fixed (places : Nat) : Value → Text
  | .nan => "NaN"
  | .infinite negative => signText negative ++ "inf"
  | .finite negative m e =>
    let (num, den) := fraction m e
    signText negative ++ positional (nearest (num * Nat.pow 10 places) den) places

/-- A number `coefficient * 10 ^ exponent`. -/
structure Decimal where
  coefficient : Nat
  exponent : Int

/-- The numbers that round to a given one. All fields count the same fraction of a unit. -/
structure Interval where
  low : Nat
  point : Nat
  high : Nat
  /-- What the other fields count, as a fraction. -/
  unit : Nat × Nat
  /-- Whether the ends belong to it. -/
  closed : Bool

def Format.interval (format : Format) (significand : Nat) (exponent : Int) : Interval :=
  let narrow := significand == Nat.pow 2 (format.digits - 1) && format.least < exponent
  { low := 4 * significand - (if narrow then 1 else 2)
    point := 4 * significand
    high := 4 * significand + 2
    unit := fraction 1 (exponent - 2)
    closed := significand % 2 == 0 }

def Interval.contains (interval : Interval) (d : Decimal) : Bool :=
  let (num, den) := interval.unit
  let up := if 0 ≤ d.exponent then Nat.pow 10 d.exponent.toNat else 1
  let down := if 0 ≤ d.exponent then 1 else Nat.pow 10 (-d.exponent).toNat
  let scale (n : Nat) := n * num * down
  let here := d.coefficient * up * den
  if interval.closed then scale interval.low ≤ here && here ≤ scale interval.high
  else scale interval.low < here && here < scale interval.high

/-- The neighbour of the point on the grid of multiples of `10 ^ exponent` that lies in the interval; of two
the nearer, of two equally near the greater. -/
def Interval.onGrid (interval : Interval) (exponent : Int) : Option Decimal :=
  let (num, den) := interval.unit
  let up := if 0 ≤ exponent then Nat.pow 10 exponent.toNat else 1
  let down := if 0 ≤ exponent then 1 else Nat.pow 10 (-exponent).toNat
  let top := interval.point * num * down
  let bottom := den * up
  let below : Decimal := ⟨top / bottom, exponent⟩
  let above : Decimal := ⟨top / bottom + 1, exponent⟩
  let lower := 2 * (top % bottom) < bottom
  if interval.contains below && (lower || !interval.contains above) then some below
  else if interval.contains above then some above
  else none

/-- The first grid that has a number of the interval, among `count` grids from `10 ^ exponent` downward. -/
def Interval.shortest (interval : Interval) : Nat → Int → Decimal
  | 0, exponent => ⟨interval.point * interval.unit.1 / interval.unit.2, exponent⟩
  | count + 1, exponent =>
    match interval.onGrid exponent with
    | some d => d
    | none => Interval.shortest interval count (exponent - 1)

def Decimal.text (d : Decimal) : Text :=
  if 0 ≤ d.exponent then Text.ofNat (d.coefficient * Nat.pow 10 d.exponent.toNat)
  else
    let written := positional d.coefficient (-d.exponent).toNat
    let kept := (written.reverse.dropWhile (· == '0')).reverse
    if kept.getLast? == some '.' then kept.dropLast else kept

/-- The fewest digits that read back as the value, nearest to it among those. -/
def Format.shortest (format : Format) : Value → Text
  | .nan => "NaN"
  | .infinite negative => signText negative ++ "inf"
  | .finite negative 0 _ => signText negative ++ "0"
  | .finite negative m e =>
    let interval := format.interval m e
    let shift := format.least.natAbs
    let (num, den) := fraction m e
    let size := (Text.ofNat (num * Nat.pow 10 shift / den)).length
    signText negative ++ (interval.shortest 20 ((size : Int) - shift - 1)).text

end GameHost.Binary
