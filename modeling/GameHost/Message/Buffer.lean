import GameHost.Fault
import GameHost.Packed
import GameHost.Text.Unicode

/-!
A message under construction, of fixed capacity. A strict buffer refuses what does not fit; a forgiving one
drops everything it holds, notes that it overflowed, and goes on with the new bytes.
-/
namespace GameHost.Message

/-- The capacity is the bytes written and what comes after them together: first what earlier contents left
behind, which comes into view again when space is reserved without being written, then zeros. -/
structure Buffer where
  filled : Packed
  stale : Packed
  /-- How many of the bytes have never been written. -/
  blank : Nat
  forgiving : Bool
  overflowed : Bool
  deriving DecidableEq, Repr

/-- How the program is built: to stop at a sum of sizes that is larger than any machine word, or to go on with the
part of it that a word holds. -/
inductive Build where
  | checked
  | unchecked
  deriving DecidableEq, Repr

/-- What a buffer showed at some moment. -/
structure Snapshot where
  data : Packed
  overflowed : Bool
  deriving DecidableEq, Repr

namespace Buffer

def strict (capacity : Nat) : Buffer := ⟨Packed.empty, Packed.empty, capacity, false, false⟩

def overflowing (capacity : Nat) : Buffer := ⟨Packed.empty, Packed.empty, capacity, true, false⟩

/-- The message so far. -/
def written (b : Buffer) : Bytes := b.filled.bytes

def size (b : Buffer) : Nat := b.filled.size

def free (b : Buffer) : Nat := b.stale.size + b.blank

def capacity (b : Buffer) : Nat := b.size + b.free

def clear (b : Buffer) : Buffer :=
  { b with filled := Packed.empty, stale := b.filled ++ b.stale, overflowed := false }

/-- Extend the written part by bytes that fit. -/
def put (data : Packed) (b : Buffer) : Buffer :=
  { b with
    filled := b.filled ++ data
    stale := b.stale.drop data.size
    blank := b.blank - (data.size - b.stale.size) }

/-- The first bytes after the written part. -/
def after (length : Nat) (b : Buffer) : Packed :=
  (b.stale.take length).padded (min (length - b.stale.size) b.blank)

/-- Make room for so many bytes, by emptying a forgiving buffer if need be. -/
def makeRoom (length : Nat) : Act Buffer Unit := fun b =>
  if length ≤ b.free then .ok () b
  else if !b.forgiving then .error .overflow b
  else if b.capacity < length then .error (.oversized length) b
  else .ok () { b.clear with overflowed := true }

/-- Take so many bytes as they are into the message; the result is where they begin. -/
def extend (length : Nat) : Act Buffer Nat := do
  makeRoom length
  let b ← get
  set (b.put (b.after length))
  return b.size

/-- Keep only so many of the written bytes. The others stay behind the written part. -/
def cut (size : Nat) (b : Buffer) : Buffer :=
  { b with
    filled := b.filled.take size
    stale := b.filled.drop size ++ b.stale }

/-- Take as many bytes into the message as a caller asks for, who can ask for any number that a machine word holds. If
the sum with the bytes written is larger than that, what a word holds of it passes for the new size. -/
def reserve (build : Build) (length : UInt64) : Act Buffer Nat := fun b =>
  let sum := b.size + length.toNat
  if sum < UInt64.size then extend length.toNat b
  else
    match build with
    | .checked => .error .wordOverflow b
    | .unchecked => .ok b.size (b.cut (sum - UInt64.size))

def writePacked (data : Packed) : Act Buffer Unit := do
  makeRoom data.size
  modify (put data)

def write (bytes : Bytes) : Act Buffer Unit := writePacked (Packed.ofBytes bytes)

/-- A text as it stands in a message: its bytes and a zero. -/
def terminated (text : Text) : Bytes := Text.encode text ++ [0]

def writeText (text : Text) : Act Buffer Unit := write (terminated text)

/-- Take back the last byte. -/
def unput (b : Buffer) : Buffer := b.cut (b.size - 1)

/-- Append a text, over the zero that ends the text before it, so that texts appended one after another
make one text. A text that does not fit changes nothing. -/
def append (text : Text) : Act Buffer Unit := fun b =>
  if b.filled.last? == some 0 then
    match write (terminated text) b.unput with
    | .ok _ after => .ok () after
    | .error fault _ => .error fault b
  else write (terminated text) b

/-- Replace the contents. They are gone even if the new ones do not fit. -/
def fill (bytes : Bytes) : Act Buffer Unit := do
  modify clear
  write bytes

def snapshot (b : Buffer) : Snapshot := ⟨b.filled, b.overflowed⟩

/-- Go back to a snapshot, as far as it fits. -/
def restore (s : Snapshot) (b : Buffer) : Buffer :=
  let kept := s.data.take b.capacity
  let memory := b.filled ++ b.stale
  { b with
    filled := kept
    stale := memory.drop kept.size
    blank := b.blank - (kept.size - memory.size)
    overflowed := s.overflowed }

@[simp] theorem length_written (b : Buffer) : b.written.length = b.size := Packed.length_bytes b.filled

@[simp] theorem written_put (data : Packed) (b : Buffer) :
    (b.put data).written = b.written ++ data.bytes :=
  Packed.bytes_append b.filled data

theorem capacity_put {data : Packed} {b : Buffer} (fits : data.size ≤ b.free) :
    (b.put data).capacity = b.capacity := by
  simp only [capacity, size, free, put, Packed.size_append, Packed.size_drop] at fits ⊢
  omega

@[simp] theorem capacity_clear (b : Buffer) : b.clear.capacity = b.capacity := by
  simp only [capacity, size, free, clear, Packed.size_append, show Packed.empty.size = 0 from rfl]
  omega

end Buffer

end GameHost.Message
