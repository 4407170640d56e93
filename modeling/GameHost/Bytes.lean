/-!
Bytes and the little-endian words made of them.
-/
namespace GameHost

abbrev Bytes := List UInt8

namespace Bytes

/-- The low `width` bytes of a number, lowest first. -/
def ofNat : Nat → Nat → Bytes
  | 0, _ => []
  | width + 1, n => UInt8.ofNat n :: ofNat width (n / 256)

/-- The number that the bytes spell, lowest first. -/
def toNat : Bytes → Nat
  | [] => 0
  | b :: rest => b.toNat + 256 * toNat rest

def ofWord32 (word : UInt32) : Bytes := ofNat 4 word.toNat

def toWord32 (bytes : Bytes) : UInt32 := UInt32.ofNat (toNat bytes)

def ofWord64 (word : UInt64) : Bytes := ofNat 8 word.toNat

def toWord64 (bytes : Bytes) : UInt64 := UInt64.ofNat (toNat bytes)

def ofInt32 (n : Int32) : Bytes := ofWord32 n.toUInt32

def toInt32 (bytes : Bytes) : Int32 := (toWord32 bytes).toInt32

def ofInt64 (n : Int64) : Bytes := ofWord64 n.toUInt64

def toInt64 (bytes : Bytes) : Int64 := (toWord64 bytes).toInt64

@[simp] theorem length_ofNat (width n : Nat) : (ofNat width n).length = width := by
  induction width generalizing n with
  | zero => rfl
  | succ width ih => simp [ofNat, ih]

theorem toNat_ofNat (width n : Nat) : toNat (ofNat width n) = n % Nat.pow 256 width := by
  induction width generalizing n with
  | zero => simp [ofNat, toNat, Nat.mod_one]
  | succ width ih =>
    simp only [ofNat, toNat, ih, UInt8.toNat_ofNat']
    rw [show Nat.pow 256 (width + 1) = 256 * Nat.pow 256 width from Nat.mul_comm _ _, Nat.mod_mul]

@[simp] theorem toWord32_ofWord32 (word : UInt32) : toWord32 (ofWord32 word) = word := by
  have bound := word.toNat_lt
  apply UInt32.toNat.inj
  simp only [toWord32, ofWord32, toNat_ofNat, UInt32.toNat_ofNat', Nat.pow_eq]
  omega

@[simp] theorem toWord64_ofWord64 (word : UInt64) : toWord64 (ofWord64 word) = word := by
  have bound := word.toNat_lt
  apply UInt64.toNat.inj
  simp only [toWord64, ofWord64, toNat_ofNat, UInt64.toNat_ofNat', Nat.pow_eq]
  omega

@[simp] theorem toInt32_ofInt32 (n : Int32) : toInt32 (ofInt32 n) = n := by simp [toInt32, ofInt32]

@[simp] theorem toInt64_ofInt64 (n : Int64) : toInt64 (ofInt64 n) = n := by simp [toInt64, ofInt64]

end Bytes

end GameHost
