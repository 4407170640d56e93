import Mathlib
import GameHost.Proofs.Message.Codec

/-!
Angles as messages carry them, in steps of 256 to the turn. The whole degrees of an angle are cut to a step towards zero,
so that what is read back is less than a step away from them on the circle, and on the side of zero. The steps are
counted over all turns, which a word has room for as long as there are fewer than two to the 23rd degrees.
-/
namespace GameHost

/-- The number that a finite value is. -/
def Binary.Value.number? : Binary.Value → Option ℚ
  | .finite negative significand exponent =>
    some (signed negative (fraction significand exponent).1 / (fraction significand exponent).2)
  | _ => none

namespace Message
open Buffer

/-- How many degrees a step is. -/
def stepDegrees : ℚ := 360 / 256

/-- The steps of a whole number of degrees, whole turns included, counted towards zero. -/
def stepsOf (degrees : Int) : Int := Int.tdiv (256 * degrees) 360

/-- The byte that an angle of so many whole degrees is written as. -/
def angleByte (degrees : Int) : UInt8 := UInt8.ofNat (stepsOf degrees % 256).toNat

section

variable {degrees : Int}

/-- What is cut off is less than 360 parts of a degree of which there are 256, and has the sign of the degrees. -/
theorem exists_cutOff (degrees : Int) : ∃ cutOff : Int, 360 * stepsOf degrees + cutOff = 256 * degrees ∧
    -360 < cutOff ∧ cutOff < 360 ∧ (0 ≤ degrees → 0 ≤ cutOff) ∧ (degrees < 0 → cutOff ≤ 0) := by
  refine ⟨Int.tmod (256 * degrees) 360, Int.mul_tdiv_add_tmod .., Int.lt_tmod_of_pos _ (by decide),
    Int.tmod_lt_of_pos _ (by decide), ?_, ?_⟩
  · exact fun positive => Int.tmod_nonneg _ (by omega)
  · intro negative
    have opposite : 0 ≤ Int.tmod (-(256 * degrees)) 360 := Int.tmod_nonneg _ (by omega)
    rw [Int.neg_tmod] at opposite
    omega

/-- The steps are less than one of them away from the degrees, on the side of zero. -/
theorem stepsOf_near (degrees : Int) : |stepDegrees * stepsOf degrees - degrees| < stepDegrees ∧
    (0 ≤ degrees → stepDegrees * stepsOf degrees ≤ degrees) ∧ (degrees < 0 → degrees ≤ stepDegrees * stepsOf degrees) := by
  obtain ⟨cutOff, whole, low, high, positive, negative⟩ := exists_cutOff degrees
  have exactly : (stepDegrees * stepsOf degrees : ℚ) = degrees - cutOff / 256 := by
    have cast : (360 * stepsOf degrees + cutOff : ℚ) = 256 * degrees := by exact_mod_cast whole
    rw [stepDegrees]
    linarith
  have least : (-360 : ℚ) < cutOff := by exact_mod_cast low
  have most : (cutOff : ℚ) < 360 := by exact_mod_cast high
  rw [exactly]
  refine ⟨?_, ?_, ?_⟩
  · rw [abs_lt, stepDegrees]
    constructor <;> linarith
  · intro above
    have rest : (0 : ℚ) ≤ cutOff := by exact_mod_cast positive above
    linarith
  · intro below
    have rest : (cutOff : ℚ) ≤ 0 := by exact_mod_cast negative below
    linarith

theorem toInt_mul_256 {word : Int32} (inside : |word.toInt| < 2 ^ 23) : (word * 256).toInt = 256 * word.toInt := by
  rw [abs_lt] at inside
  rw [Int32.toInt_mul, show (256 : Int32).toInt = 256 from rfl, Int.mul_comm]
  exact Int.bmod_eq_of_le (by omega) (by omega)

theorem toInt_angleStep {word : Int32} (inside : |word.toInt| < 2 ^ 23) :
    (angleStep word).toInt = stepsOf word.toInt % 256 := by
  obtain ⟨cutOff, whole, low, high, _⟩ := exists_cutOff word.toInt
  rw [angleStep, toInt_and_255, Int32.toInt_div, toInt_mul_256 inside]
  rw [abs_lt] at inside
  change (stepsOf word.toInt).bmod (2 ^ 32) % 256 = stepsOf word.toInt % 256
  rw [Int.bmod_eq_of_le (by omega) (by omega)]

end

/-- An angle is written as the byte of its whole degrees. -/
theorem bytes_angle {x : Single} (inside : |x.floorWord.toInt| < 2 ^ 23) :
    (Field.angle x).bytes = [angleByte x.floorWord.toInt] := by
  have one : (Field.angle x).bytes.length = 1 := Bytes.length_take_ofInt32 (by decide) _
  obtain ⟨b, bytes⟩ := List.length_eq_one_iff.1 one
  have low := toNat_take_one (angleStep x.floorWord)
  rw [show (Bytes.ofInt32 (angleStep x.floorWord)).take 1 = [b] from bytes, toInt_angleStep inside] at low
  have value : (b.toNat : Int) = stepsOf x.floorWord.toInt % 256 % 256 := low
  rw [bytes]
  congr 1
  apply UInt8.toNat.inj
  rw [angleByte, UInt8.toNat_ofNat']
  omega

/-- The byte says the steps, but for whole turns. -/
theorem angleByte_turns (degrees : Int) :
    ∃ turns : Int, ((angleByte degrees).toNat : ℚ) * stepDegrees + 360 * turns = stepDegrees * stepsOf degrees := by
  refine ⟨stepsOf degrees / 256, ?_⟩
  have parts : ((angleByte degrees).toNat : Int) + 256 * (stepsOf degrees / 256) = stepsOf degrees := by
    rw [angleByte, UInt8.toNat_ofNat']
    omega
  have cast : ((angleByte degrees).toNat : ℚ) + 256 * (stepsOf degrees / 256 : Int) = stepsOf degrees := by
    exact_mod_cast parts
  rw [← cast, stepDegrees]
  ring

theorem number?_step : ∀ steps : Fin 256,
    (Single.ofScaled (45 * (steps.val : Int)) (-5)).value.number? = some (steps.val * stepDegrees) := by
  decide +kernel

theorem readAngle_step {c : Cursor} {steps : UInt8} {after : Bytes} (there : c.rest = steps :: after) :
    c.readAngle.1.value.number? = some (steps.toNat * stepDegrees) := by
  have read := Cursor.field_of_rest (show c.rest = [steps] ++ after from there) rfl Single.zero
    fun bytes => Single.ofScaled (45 * Bytes.toNat bytes) (-5)
  have value : c.readAngle.1 = Single.ofScaled (45 * steps.toNat) (-5) := congrArg Prod.fst read
  rw [value]
  exact number?_step ⟨steps.toNat, steps.toNat_lt⟩

/-- All around the circle and over many turns: no word wraps, the byte that is written for whole degrees is less than a
step away from them, towards zero, and it is read as just the degrees that it counts. -/
theorem angle_within_step (degrees : Int) (inside : |degrees| < 2 ^ 23) :
    (Int32.ofInt degrees * 256).toInt = 256 * degrees ∧
      (∀ (x : Single) (b : Buffer), x.floorWord = Int32.ofInt degrees → 0 < b.free →
        ∃ t, writeAngle x b = .ok () t ∧ t.written = b.written ++ [angleByte degrees]) ∧
      (∀ (c : Cursor) (after : Bytes), c.rest = angleByte degrees :: after →
        c.readAngle.1.value.number? = some (((angleByte degrees).toNat : ℚ) * 360 / 256)) ∧
      ∃ turns : Int, let told : ℚ := (angleByte degrees).toNat * 360 / 256 + 360 * turns
        told = 360 / 256 * Int.tdiv (256 * degrees) 360 ∧ |told - degrees| < 360 / 256 ∧
          (0 ≤ degrees → told ≤ degrees) ∧ (degrees < 0 → degrees ≤ told) := by
  have scale (n : ℚ) : n * 360 / 256 = n * stepDegrees := mul_div_assoc n 360 256
  have number : (Int32.ofInt degrees).toInt = degrees := by
    rw [abs_lt] at inside
    rw [Int32.toInt_ofInt, show Int32.size = 4294967296 from rfl]
    exact Int.bmod_eq_of_le (by omega) (by omega)
  have small : |(Int32.ofInt degrees).toInt| < 2 ^ 23 := by rwa [number]
  refine ⟨?_, ?_, ?_, ?_⟩
  · rw [toInt_mul_256 small, number]
  · intro x b floor room
    have one : (Field.angle x).bytes = [angleByte degrees] := by
      rw [bytes_angle (by rwa [floor]), floor, number]
    have fits : b.written.length + (Field.angle x).bytes.length ≤ b.capacity := by
      rw [one, length_written, capacity]
      exact Nat.add_le_add_left room _
    obtain ⟨t, wrote, _, written, _⟩ := (Field.angle x).write_fits fits
    exact ⟨t, wrote, by rw [written, one]⟩
  · intro c after there
    rw [scale]
    exact readAngle_step there
  · obtain ⟨turns, steps⟩ := angleByte_turns degrees
    refine ⟨turns, ?_⟩
    simp only [scale, steps]
    exact ⟨rfl, stepsOf_near degrees⟩

/-- The most degrees below zero, which are 23301 turns and 175 steps: they are cut to the step above them. -/
theorem least_degrees_within_step :
    |(-8388607 : Int)| < 2 ^ 23 ∧ (⟨0xCAFFFFFE⟩ : Single).floorWord = Int32.ofInt (-8388607) ∧
      (∃ t, writeAngle ⟨0xCAFFFFFE⟩ (strict 1) = .ok () t ∧ t.written = [81]) ∧
      (Cursor.ofBytes [81]).readAngle.1.value.number? = some (113.90625 : ℚ) ∧
      ∃ turns : Int, (113.90625 : ℚ) + 360 * turns = -8388606.09375 := by
  have inside : |(-8388607 : Int)| < 2 ^ 23 := by decide
  have floor : (⟨0xCAFFFFFE⟩ : Single).floorWord = Int32.ofInt (-8388607) := by decide +kernel
  have byte : angleByte (-8388607) = 81 := by decide
  have value : (81 : UInt8).toNat = 81 := rfl
  have steps : Int.tdiv (256 * -8388607) 360 = -5965231 := by decide
  obtain ⟨_, writes, reads, turns, told, _⟩ := angle_within_step (-8388607) inside
  simp only [byte, value, steps] at writes reads told
  refine ⟨inside, floor, writes _ (strict 1) floor (by decide), ?_, turns, ?_⟩
  · rw [reads _ [] rfl]
    norm_num
  · norm_num at told ⊢
    linarith

end Message

end GameHost
