import GameHost.Bytes

/-!
Bytes side by side in memory, for what grows long: files, messages under construction and what is read
ahead. Every operation is the one of the same name on the list of the bytes, as the lemmas here say.
-/
namespace GameHost

structure Packed where
  array : ByteArray

namespace Packed

instance : DecidableEq Packed
  | ⟨a⟩, ⟨b⟩ =>
    match ByteArray.decEq a b with
    | isTrue same => isTrue (congrArg mk same)
    | isFalse other => isFalse fun same => other (mk.inj same)

/-- The bytes in order. -/
def bytes (p : Packed) : Bytes := p.array.data.toList

instance : Repr Packed := ⟨fun p => reprPrec p.bytes⟩

def ofBytes (bytes : Bytes) : Packed := ⟨bytes.toByteArray⟩

def empty : Packed := ⟨ByteArray.empty⟩

def size (p : Packed) : Nat := p.array.size

instance : Append Packed := ⟨fun p q => ⟨p.array ++ q.array⟩⟩

/-- The bytes from a place on, at most `count` of them. -/
def slice (start count : Nat) (p : Packed) : Packed :=
  ⟨p.array.extract start (min (start + count) p.array.size)⟩

def take (count : Nat) (p : Packed) : Packed := p.slice 0 count

def drop (count : Nat) (p : Packed) : Packed := p.slice count p.size

def last? (p : Packed) : Option UInt8 := (p.drop (p.size - 1)).bytes.head?

/-- The bytes with so many zeros after them. -/
def padded (p : Packed) : Nat → Packed
  | 0 => p
  | count + 1 => padded ⟨p.array.push 0⟩ count

def zeros (count : Nat) : Packed := empty.padded count

theorem ext {p q : Packed} (same : p.bytes = q.bytes) : p = q := by
  obtain ⟨a⟩ := p
  obtain ⟨b⟩ := q
  exact congrArg mk (ByteArray.ext (Array.toList_inj.1 same))

@[simp] theorem bytes_empty : empty.bytes = [] := rfl

@[simp] theorem bytes_ofBytes (bytes : Bytes) : (ofBytes bytes).bytes = bytes := by
  simp [Packed.bytes, ofBytes]

@[simp] theorem ofBytes_bytes (p : Packed) : ofBytes p.bytes = p := ext (bytes_ofBytes p.bytes)

@[simp] theorem length_bytes (p : Packed) : p.bytes.length = p.size := by
  simp [bytes, size]

@[simp] theorem bytes_append (p q : Packed) : (p ++ q).bytes = p.bytes ++ q.bytes :=
  ByteArray.toList_data_append

@[simp] theorem bytes_slice (start count : Nat) (p : Packed) :
    (p.slice start count).bytes = (p.bytes.drop start).take count := by
  have bound : p.array.data.toList.length = p.array.size := by simp
  simp only [bytes, slice, ByteArray.data_extract, Array.toList_extract, List.extract_eq_take_drop]
  rw [List.take_eq_take_iff, List.length_drop, bound]
  omega

@[simp] theorem bytes_take (count : Nat) (p : Packed) : (p.take count).bytes = p.bytes.take count := by
  simp [take]

@[simp] theorem bytes_drop (count : Nat) (p : Packed) : (p.drop count).bytes = p.bytes.drop count := by
  rw [drop, bytes_slice, List.take_of_length_le]
  simp only [List.length_drop, length_bytes]
  omega

@[simp] theorem size_ofBytes (bytes : Bytes) : (ofBytes bytes).size = bytes.length := by
  rw [← length_bytes, bytes_ofBytes]

@[simp] theorem size_append (p q : Packed) : (p ++ q).size = p.size + q.size := by
  simp [← length_bytes]

@[simp] theorem size_slice (start count : Nat) (p : Packed) :
    (p.slice start count).size = min count (p.size - start) := by
  simp [← length_bytes]

@[simp] theorem size_take (count : Nat) (p : Packed) : (p.take count).size = min count p.size := by
  simp [← length_bytes]

@[simp] theorem size_drop (count : Nat) (p : Packed) : (p.drop count).size = p.size - count := by
  simp [← length_bytes]

theorem last?_eq (p : Packed) : p.last? = p.bytes.getLast? := by
  rw [last?, bytes_drop, List.head?_drop, List.getLast?_eq_getElem?, length_bytes]

@[simp] theorem bytes_padded (p : Packed) (count : Nat) :
    (p.padded count).bytes = p.bytes ++ List.replicate count 0 := by
  induction count generalizing p with
  | zero => simp [padded]
  | succ count ih =>
    rw [padded, ih]
    simp [bytes, List.replicate_succ]

@[simp] theorem bytes_zeros (count : Nat) : (zeros count).bytes = List.replicate count 0 := by
  simp [zeros]

end Packed

end GameHost
