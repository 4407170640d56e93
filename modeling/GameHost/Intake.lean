import GameHost.Packed

/-!
Taking bytes in from a source, block by block. Only what a block has brought in is settled; what the source
holds past it may still change, and is seen as it is when the next block is needed.
-/
namespace GameHost

/-- Files are read and written in blocks of this size. -/
def blockSize : Nat := 8192

structure Intake where
  /-- Bytes taken in and not yet asked for. -/
  ahead : Packed
  /-- How many bytes of the source have been taken in. -/
  taken : Nat
  deriving DecidableEq, Repr

namespace Intake

def fresh : Intake := ⟨Packed.empty, 0⟩

/-- What is still to be read of a source that stays as it is. -/
def rest (source : Packed) (i : Intake) : Bytes := i.ahead.bytes ++ source.bytes.drop i.taken

/-- How many bytes are still to be read. -/
def left (source : Packed) (i : Intake) : Nat := i.ahead.size + (source.size - i.taken)

/-- The next bytes, if there are so many; if not, all that is left is used up. -/
def read (count : Nat) (source : Packed) (i : Intake) : Option Bytes × Intake :=
  if count ≤ i.ahead.size then
    (some (i.ahead.take count).bytes, { i with ahead := i.ahead.drop count })
  else
    let missing := count - i.ahead.size
    let block := source.slice i.taken (max missing blockSize)
    let after : Intake := ⟨block.drop missing, i.taken + block.size⟩
    (if missing ≤ block.size then some (i.ahead ++ block.take missing).bytes else none, after)

theorem length_rest (source : Packed) (i : Intake) : (i.rest source).length = i.left source := by
  simp [rest, left]

/-- Blocks do not show in what is read from a source that stays as it is. -/
theorem read_bytes (count : Nat) (source : Packed) (i : Intake) :
    (i.read count source).1 =
      if count ≤ i.left source then some ((i.rest source).take count) else none := by
  by_cases enough : count ≤ i.ahead.size
  · have bound : count ≤ i.left source := by simp only [left]; omega
    have short : count ≤ i.ahead.bytes.length := by simpa using enough
    simp only [read, if_pos enough, if_pos bound, rest, Packed.bytes_take,
      List.take_append_of_le_length short]
  · have start : (i.rest source).take count =
        i.ahead.bytes ++ (source.bytes.drop i.taken).take (count - i.ahead.size) := by
      rw [rest, List.take_append, List.take_of_length_le (by simp; omega), Packed.length_bytes]
    have reach : min (count - i.ahead.size) (max (count - i.ahead.size) blockSize) =
        count - i.ahead.size := by omega
    simp only [read, if_neg enough, start, Packed.bytes_append, Packed.bytes_take, Packed.bytes_slice,
      List.take_take, reach, Packed.size_slice, left]
    by_cases there : count ≤ i.ahead.size + (source.size - i.taken)
    · rw [if_pos (by omega), if_pos there]
    · rw [if_neg (by omega), if_neg there]

/-- Reading leaves what comes after the bytes that were read. -/
theorem rest_read {count : Nat} {source : Packed} {i : Intake} (there : count ≤ i.left source) :
    (i.read count source).2.rest source = (i.rest source).drop count := by
  by_cases enough : count ≤ i.ahead.size
  · have short : count ≤ i.ahead.bytes.length := by simpa using enough
    simp only [read, if_pos enough, rest, Packed.bytes_drop, List.drop_append_of_le_length short]
  · have past : i.ahead.bytes.drop count = [] := List.drop_eq_nil_of_le (by simp; omega)
    simp only [left] at there
    simp only [read, if_neg enough, rest, Packed.bytes_drop, Packed.bytes_slice, Packed.size_slice,
      List.drop_append, past, List.nil_append, Packed.length_bytes, ← List.drop_drop]
    have inside : count - i.ahead.size ≤ (source.bytes.drop i.taken).length := by simp; omega
    rw [show source.size - i.taken = (source.bytes.drop i.taken).length by simp]
    generalize source.bytes.drop i.taken = coming at *
    generalize count - i.ahead.size = missing at *
    rw [← List.drop_append_of_le_length (by simp; omega)]
    congr 1
    rcases Nat.le_total (max missing blockSize) coming.length with h | h
    · rw [Nat.min_eq_left h, List.take_append_drop]
    · rw [Nat.min_eq_right h, List.drop_length, List.append_nil, List.take_of_length_le h]

end Intake

end GameHost
