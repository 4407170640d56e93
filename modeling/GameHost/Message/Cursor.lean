import GameHost.Fault
import GameHost.Text.Unicode

/-!
Reading a message from its start. A field that is not wholly there is not read: the reader gets a stand-in
for it, and the shortage is remembered until the cursor goes back to the start.
-/
namespace GameHost.Message

structure Cursor where
  /-- The bytes before the cursor, the nearest first. -/
  before : Bytes
  /-- The bytes still to be read. -/
  rest : Bytes
  short : Bool
  deriving DecidableEq, Repr

namespace Cursor

def ofBytes (data : Bytes) : Cursor := ⟨[], data, false⟩

/-- The whole message. -/
def data (c : Cursor) : Bytes := c.before.reverse ++ c.rest

def reset (c : Cursor) : Cursor := ofBytes c.data

def position (c : Cursor) : Nat := c.before.length

def remaining (c : Cursor) : Nat := c.rest.length

/-- Go on over the next so many bytes, as far as there are any. -/
def pass : Nat → Cursor → Cursor
  | 0, c => c
  | _ + 1, ⟨before, [], short⟩ => ⟨before, [], short⟩
  | count + 1, ⟨before, b :: rest, short⟩ => pass count ⟨b :: before, rest, short⟩

/-- The next so many bytes, if they are there. -/
def take (count : Nat) (c : Cursor) : Option Bytes × Cursor :=
  let bytes := c.rest.take count
  if bytes.length == count then (some bytes, pass count c) else (none, { c with short := true })

/-- As many bytes as a caller asks for, who can ask for any number that a machine word holds. The program stops if
no word holds the place behind them, however it is built. -/
def readData (count : UInt64) : Act Cursor (Option Bytes) := fun c =>
  if c.position + count.toNat < UInt64.size then
    let (bytes, after) := c.take count.toNat
    .ok bytes after
  else .error .wordOverflow c

/-- A field of fixed width, or what stands in for it. -/
def field (width : Nat) (absent : α) (read : Bytes → α) (c : Cursor) : α × Cursor :=
  match c.take width with
  | (some bytes, after) => (read bytes, after)
  | (none, after) => (absent, after)

/-- The number spelled by bytes as a signed word of their width. -/
def signedWord (width : Nat) (bytes : Bytes) : Int := Int.bmod (Bytes.toNat bytes) (Nat.pow 256 width)

def readChar (c : Cursor) : Int × Cursor := c.field 1 (-1) (signedWord 1)

def readByte (c : Cursor) : Int × Cursor := c.field 1 (-1) fun bytes => (Bytes.toNat bytes : Int)

def readShort (c : Cursor) : Int × Cursor := c.field 2 (-1) (signedWord 2)

def readLong (c : Cursor) : Int × Cursor := c.field 4 (-1) (signedWord 4)

def readSingle (c : Cursor) : Single × Cursor :=
  c.field 4 Single.minusOne fun bytes => ⟨Bytes.toWord32 bytes⟩

/-- Eighths of a unit. -/
def readCoord (c : Cursor) : Single × Cursor :=
  c.field 2 Single.zero fun bytes => Single.ofScaled (signedWord 2 bytes) (-3)

/-- 256ths of a turn, in degrees: a step is 45/32 of a degree. -/
def readAngle (c : Cursor) : Single × Cursor :=
  c.field 1 Single.zero fun bytes => Single.ofScaled (45 * Bytes.toNat bytes) (-5)

/-- The text up to a byte that ends it, which is read too. A text that nothing ends goes to the end of the
message and counts as a shortage. -/
def readUntil (ends : UInt8 → Bool) (c : Cursor) : Text × Cursor :=
  let body := c.rest.takeWhile (! ends ·)
  let c := pass body.length c
  (Text.decode body, { pass 1 c with short := c.short || c.rest.isEmpty })

def readText (c : Cursor) : Text × Cursor := c.readUntil (· == 0)

def readLine (c : Cursor) : Text × Cursor := c.readUntil fun b => b == 0 || b == 10

theorem pass_eq (count : Nat) (c : Cursor) :
    pass count c = ⟨(c.rest.take count).reverse ++ c.before, c.rest.drop count, c.short⟩ := by
  obtain ⟨before, rest, short⟩ := c
  induction count generalizing before rest with
  | zero => simp [pass]
  | succ count ih => cases rest <;> simp [pass, ih]

theorem data_pass (count : Nat) (c : Cursor) : (pass count c).data = c.data := by
  simp [pass_eq, data]

end Cursor

end GameHost.Message
