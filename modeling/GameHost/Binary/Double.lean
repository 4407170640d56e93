import GameHost.Binary.Single

/-!
Double precision: the host's clock and everything measured by it.
-/
namespace GameHost

/-- A double precision number as its bit pattern. -/
structure Double where
  bits : UInt64
  deriving DecidableEq, Repr

namespace Double
open Binary

def value (x : Double) : Value := Format.double.value x.bits.toNat

def ofPattern (pattern : Nat) : Double := ⟨UInt64.ofNat pattern⟩

def zero : Double := ⟨0⟩

def one : Double := ⟨0x3FF0000000000000⟩

/-- The nan that an operation without a result gives. -/
def undefined : Double := ⟨0xFFF8000000000000⟩

def isNan (x : Double) : Bool := x.value == .nan

/-- A nan as an operation hands it on: its quiet bit set, all else kept. -/
def quiet (x : Double) : Double := ⟨x.bits ||| 0x0008000000000000⟩

def negate (x : Double) : Double := ⟨x.bits ^^^ 0x8000000000000000⟩

def abs (x : Double) : Double := ⟨x.bits &&& 0x7FFFFFFFFFFFFFFF⟩

def infinite (negative : Bool) : Double :=
  if negative then ⟨0xFFF0000000000000⟩ else ⟨0x7FF0000000000000⟩

def ofInt (n : Int) : Double :=
  ofPattern (Format.double.ofScaled (decide (n < 0)) n.natAbs 0)

/-- A single precision number at double precision, which is exact. -/
def ofSingle (x : Single) : Double :=
  match x.value with
  | .nan =>
    let sign : UInt64 := x.bits.toUInt64 >>> 31
    let payload : UInt64 := x.bits.toUInt64 &&& 0x7FFFFF
    ⟨(sign <<< 63) ||| (0x7FF8000000000000 : UInt64) ||| (payload <<< 29)⟩
  | .infinite negative => infinite negative
  | .finite negative m e => ofPattern (Format.double.ofScaled negative m e)

def add (x y : Double) : Double :=
  match x.value, y.value with
  | .nan, _ => x.quiet
  | _, .nan => y.quiet
  | .infinite s, .infinite t => if s == t then x else undefined
  | .infinite _, .finite .. => x
  | .finite .., .infinite _ => y
  | .finite s m e, .finite t n k =>
    let base := min e k
    let sum := signed s (m * Nat.pow 2 (e - base).toNat) + signed t (n * Nat.pow 2 (k - base).toNat)
    if sum == 0 then ofPattern (Format.double.ofScaled (s && t) 0 0)
    else ofPattern (Format.double.ofScaled (decide (sum < 0)) sum.natAbs base)

def sub (x y : Double) : Double :=
  if x.isNan then x.quiet else if y.isNan then y.quiet else add x y.negate

def div (x y : Double) : Double :=
  match x.value, y.value with
  | .nan, _ => x.quiet
  | _, .nan => y.quiet
  | .infinite _, .infinite _ => undefined
  | .infinite s, .finite t .. => infinite (s != t)
  | .finite s .., .infinite t => ofPattern (Format.double.ofScaled (s != t) 0 0)
  | .finite s m e, .finite t n k =>
    if n == 0 then if m == 0 then undefined else infinite (s != t)
    else
      let top := fraction m e
      let bottom := fraction n k
      ofPattern ((if s != t then Format.double.signBit else 0) +
        Format.double.round (top.1 * bottom.2) (top.2 * bottom.1))

def less (x y : Double) : Bool := x.value.compare y.value == some .lt

def atMost (x y : Double) : Bool :=
  match x.value.compare y.value with
  | some .lt | some .eq => true
  | _ => false

/-- Equality of numbers: the zeros are equal, and a nan equals nothing. -/
def equal (x y : Double) : Bool := x.value.compare y.value == some .eq

end Double

end GameHost
