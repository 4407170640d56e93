import GameHost.Disk

/-!
Files read and written in order, through a block of memory. Until a writer's block is full its bytes are
not in the file; a reader keeps what it read ahead, and sees a file that grows only from its next block on.
-/
namespace GameHost

structure Writer where
  place : Place
  /-- Where the next bytes go. -/
  offset : Nat
  /-- Bytes not yet in the file. -/
  held : Packed
  deriving DecidableEq, Repr

/-- An action on an open file and the disk it is on. -/
abbrev FileAct (α : Type) := EStateM StorageFault (Writer × Disk) α

namespace Writer

def atStart (place : Place) : Writer := ⟨place, 0, Packed.empty⟩

/-- Put bytes into the file, past the block. -/
def put (bytes : Packed) : FileAct Unit := fun (w, disk) =>
  match disk.write w.place w.offset bytes with
  | .ok disk => .ok () ({ w with offset := w.offset + bytes.size }, disk)
  | .error fault => .error fault (w, disk)

/-- Keep bytes in the block. -/
def hold (bytes : Packed) : FileAct Unit :=
  modify fun (w, disk) => ({ w with held := w.held ++ bytes }, disk)

/-- Put the bytes held into the file. If that fails they are still held. -/
def flush : FileAct Unit := do
  put (← get).1.held
  modify fun (w, disk) => ({ w with held := Packed.empty }, disk)

/-- Append bytes. Those that do not fit into the block send what it holds to the file first, and those that
fill a block of their own go to the file at once. -/
def write (bytes : Bytes) : FileAct Unit := do
  let piece := Packed.ofBytes bytes
  if (← get).1.held.size + piece.size ≤ blockSize && piece.size < blockSize then hold piece
  else
    flush
    if piece.size < blockSize then hold piece else put piece

/-- Append pieces one after another, up to the first that fails. -/
def writeAll : List Bytes → FileAct Unit
  | [] => pure ()
  | piece :: rest => do
    write piece
    writeAll rest

/-- Let go of the file. What cannot be written is lost. -/
def close (w : Writer) (disk : Disk) : Disk :=
  match flush (w, disk) with
  | .ok _ (_, disk) => disk
  | .error _ (_, disk) => disk

/-- Act on an open file. After a failure it is closed. -/
def run (act : FileAct Unit) (w : Writer) : DiskAct Writer := fun disk =>
  match act (w, disk) with
  | .ok _ (w, disk) => .ok w disk
  | .error fault (w, disk) => .error fault (w.close disk)

/-- Make the file of a path, with the folders it needs, and write bytes into it. -/
def create (path : Path) (bytes : Bytes) : DiskAct Writer := do
  Disk.makeParents path
  let place ← Disk.create path
  run (write bytes) (atStart place)

end Writer

structure Reader where
  place : Place
  intake : Intake
  deriving DecidableEq, Repr

namespace Reader

def atStart (place : Place) : Reader := ⟨place, Intake.fresh⟩

/-- What is still to be read if the file stays as it is. -/
def rest (r : Reader) (disk : Disk) : Bytes := r.intake.rest (disk.contents r.place)

/-- How many bytes are still to be read. -/
def left (r : Reader) (disk : Disk) : Nat := r.intake.left (disk.contents r.place)

/-- The next bytes, if there are so many; if not, all that is left is used up. -/
def read (count : Nat) (r : Reader) (disk : Disk) : Option Bytes × Reader :=
  let (bytes, intake) := r.intake.read count (disk.contents r.place)
  (bytes, { r with intake })

/-- The bytes up to a newline, which is read too, or up to the end; at most `fuel` of them. -/
def lineWithin : Nat → Reader → Disk → Bytes × Reader
  | 0, r, _ => ([], r)
  | fuel + 1, r, disk =>
    match r.read 1 disk with
    | (some [b], r) =>
      if b == 10 then ([], r)
      else
        let (line, r) := lineWithin fuel r disk
        (b :: line, r)
    | (_, r) => ([], r)

def line (r : Reader) (disk : Disk) : Bytes × Reader := r.lineWithin (r.left disk + 1) disk

end Reader

end GameHost
