import GameHost.Text.Unicode
import Mathlib.Tactic.IntervalCases

/-!
UTF-8 read back: what is written for a text decodes to the text, whatever bytes follow it. Only the character
NUL is written with a zero byte, so a text without it can be ended by one.
-/
namespace GameHost.Text

/-- A byte that continues a character, in the range that the bytes before it leave. -/
theorem decodeFrom_tail (under : Partial) (low : Nat) (rest : Bytes) (small : low < 64)
    (above : under.low.toNat ≤ low + 128) (below : low + 128 ≤ under.high.toNat) :
    decodeFrom (some under) (UInt8.ofNat (low + 128) :: rest) =
      if under.due ≤ 1 then Char.ofNat (under.bits * 64 + low) :: decodeFrom none rest
      else decodeFrom (some ⟨under.due - 1, under.bits * 64 + low, 0x80, 0xBF⟩) rest := by
  have value : (UInt8.ofNat (low + 128)).toNat = low + 128 := by
    rw [UInt8.toNat_ofNat']; omega
  have range : under.low ≤ UInt8.ofNat (low + 128) ∧ UInt8.ofNat (low + 128) ≤ under.high := by
    rw [UInt8.le_iff_toNat_le, UInt8.le_iff_toNat_le, value]; exact ⟨above, below⟩
  have digit : (low + 128) % 64 = low := by omega
  generalize UInt8.ofNat (low + 128) = b at value range
  simp [decodeFrom, range, value, digit]

theorem decodeFrom_lead {b : UInt8} {under : Partial} (lead : start b = ([], some under)) (rest : Bytes) :
    decodeFrom none (b :: rest) = decodeFrom (some under) rest := by
  simp [decodeFrom, lead]

theorem start_of_two {n : Nat} (least : 2 ≤ n) (most : n < 32) :
    start (UInt8.ofNat (n + 0xC0)) = ([], some ⟨1, n, 0x80, 0xBF⟩) := by
  interval_cases n <;> rfl

theorem start_of_three {n : Nat} (most : n < 16) : ∃ low high, low.toNat ≤ 0xA0 ∧ 0x9F ≤ high.toNat ∧
    (n ≠ 0 → low = 0x80) ∧ (n ≠ 13 → high = 0xBF) ∧
    start (UInt8.ofNat (n + 0xE0)) = ([], some ⟨2, n, low, high⟩) := by
  interval_cases n <;> exact ⟨_, _, by decide, by decide, by decide, by decide, rfl⟩

theorem start_of_four {n : Nat} (most : n < 5) : ∃ low high, low.toNat ≤ 0x90 ∧ 0x8F ≤ high.toNat ∧
    (n ≠ 0 → low = 0x80) ∧ (n ≠ 4 → high = 0xBF) ∧
    start (UInt8.ofNat (n + 0xF0)) = ([], some ⟨3, n, low, high⟩) := by
  interval_cases n <;> exact ⟨_, _, by decide, by decide, by decide, by decide, rfl⟩

theorem decodeFrom_utf8EncodeChar (c : Char) (rest : Bytes) :
    decodeFrom none (String.utf8EncodeChar c ++ rest) = c :: decodeFrom none rest := by
  obtain ⟨v, hv⟩ : ∃ v, v = c.val.toNat := ⟨_, rfl⟩
  have back : Char.ofNat v = c := by rw [hv]; exact Char.ofNat_toNat c
  have valid : v < 0xD800 ∨ 0xDFFF < v ∧ v < 0x110000 := hv ▸ c.valid
  simp only [String.utf8EncodeChar, ← hv]
  split
  · have first : UInt8.ofNat v < 0x80 := by
      rw [UInt8.lt_iff_toNat_lt, UInt8.toNat_ofNat']
      exact Nat.lt_of_le_of_lt (Nat.mod_le _ _) (by change v < 128; omega)
    have code : (UInt8.ofNat v).toNat = v := by rw [UInt8.toNat_ofNat']; omega
    simp [decodeFrom, start, first, code, back]
  split
  · have lead := start_of_two (n := v / 64 % 32) (by omega) (by omega)
    simp only [List.cons_append, List.nil_append]
    rw [decodeFrom_lead lead, decodeFrom_tail _ _ _ (by omega) (by simp) (by simp; omega), if_pos (by simp)]
    simp only [show v / 64 % 32 * 64 + v % 64 = v by omega, back]
  split
  · obtain ⟨low, high, least, most, other, another, lead⟩ := start_of_three (n := v / 4096 % 16) (by omega)
    have above : low.toNat ≤ v / 64 % 64 + 128 := by
      by_cases zero : v / 4096 % 16 = 0
      · omega
      · rw [other zero]; simp
    have below : v / 64 % 64 + 128 ≤ high.toNat := by
      by_cases surrogate : v / 4096 % 16 = 13
      · omega
      · rw [another surrogate]; simp; omega
    simp only [List.cons_append, List.nil_append]
    rw [decodeFrom_lead lead, decodeFrom_tail _ _ _ (by omega) above below, if_neg (by simp),
      decodeFrom_tail _ _ _ (by omega) (by simp) (by simp; omega), if_pos (by simp)]
    simp only [show (v / 4096 % 16 * 64 + v / 64 % 64) * 64 + v % 64 = v by omega, back]
  · obtain ⟨low, high, least, most, other, another, lead⟩ := start_of_four (n := v / 262144 % 8) (by omega)
    have above : low.toNat ≤ v / 4096 % 64 + 128 := by
      by_cases zero : v / 262144 % 8 = 0
      · omega
      · rw [other zero]; simp
    have below : v / 4096 % 64 + 128 ≤ high.toNat := by
      by_cases last : v / 262144 % 8 = 4
      · omega
      · rw [another last]; simp; omega
    simp only [List.cons_append, List.nil_append]
    rw [decodeFrom_lead lead, decodeFrom_tail _ _ _ (by omega) above below, if_neg (by simp),
      decodeFrom_tail _ _ _ (by omega) (by simp) (by simp; omega), if_neg (by simp),
      decodeFrom_tail _ _ _ (by omega) (by simp) (by simp; omega), if_pos (by simp)]
    simp only [show ((v / 262144 % 8 * 64 + v / 4096 % 64) * 64 + v / 64 % 64) * 64 + v % 64 = v
      by omega, back]

@[simp] theorem decode_encode (text : Text) : decode (encode text) = text := by
  rw [decode_eq]
  induction text with
  | nil => rfl
  | cons c rest ih =>
    rw [encode, List.flatMap_cons, decodeFrom_utf8EncodeChar]
    exact congrArg (c :: ·) ih

theorem length_encode (text : Text) : (encode text).length = size text := by
  induction text with
  | nil => rfl
  | cons c rest ih =>
    rw [size_cons, ← ih, encode, List.flatMap_cons, List.length_append, String.length_utf8EncodeChar]
    rfl

theorem byte_of_char_ne_zero {c : Char} (other : c ≠ Char.ofNat 0) {b : UInt8}
    (member : b ∈ String.utf8EncodeChar c) : b ≠ 0 := by
  have nonzero : c.val.toNat ≠ 0 := by
    intro zero
    apply other
    rw [← Char.ofNat_toNat c]
    exact congrArg Char.ofNat zero
  have written {n : Nat} (positive : 0 < n) (bound : n < 256) : UInt8.ofNat n ≠ 0 := by
    intro zero
    have := congrArg UInt8.toNat zero
    rw [UInt8.toNat_ofNat', Nat.mod_eq_of_lt bound] at this
    exact absurd this (by change n ≠ 0; omega)
  simp only [String.utf8EncodeChar] at member
  split at member
  · simp only [List.mem_singleton] at member
    exact member ▸ written (by omega) (by omega)
  split at member
  · simp only [List.mem_cons, List.not_mem_nil, or_false] at member
    rcases member with rfl | rfl <;> exact written (by omega) (by omega)
  split at member
  · simp only [List.mem_cons, List.not_mem_nil, or_false] at member
    rcases member with rfl | rfl | rfl <;> exact written (by omega) (by omega)
  · simp only [List.mem_cons, List.not_mem_nil, or_false] at member
    rcases member with rfl | rfl | rfl | rfl <;> exact written (by omega) (by omega)

theorem zero_notin_encode {text : Text} (clean : Char.ofNat 0 ∉ text) : 0 ∉ encode text := by
  intro member
  obtain ⟨c, here, zero⟩ := List.mem_flatMap.1 member
  exact byte_of_char_ne_zero (fun same => clean (same ▸ here)) zero rfl

end GameHost.Text
