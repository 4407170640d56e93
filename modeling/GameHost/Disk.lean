import GameHost.Disk.Path
import GameHost.Fault
import GameHost.Intake

/-!
Files and folders. A place is the list of names from the root down; paths are followed to places one part
at a time, and every part but the last must be a folder.
-/
namespace GameHost

abbrev Place := List Text

inductive Entry where
  | folder
  | file (data : Packed)
  /-- A device that accepts no byte and gives nothing but zeros. -/
  | device
  deriving DecidableEq, Repr

structure Disk where
  entries : List (Place × Entry)
  /-- The folder that relative paths start from. It and the folders above it are always there. -/
  home : Place
  deriving DecidableEq, Repr

/-- An action on the disk, which may fail half done. -/
abbrev DiskAct (α : Type) := EStateM StorageFault Disk α

namespace Disk

def empty (home : Place) : Disk := ⟨[], home⟩

def entryAt (disk : Disk) (place : Place) : Option Entry :=
  if place.isPrefixOf disk.home then some .folder else disk.entries.lookup place

def put (place : Place) (entry : Entry) (disk : Disk) : Disk :=
  if (disk.entries.lookup place).isSome then
    { disk with entries := disk.entries.map fun e => if e.1 == place then (place, entry) else e }
  else { disk with entries := disk.entries ++ [(place, entry)] }

/-- The longest name, in bytes. -/
def nameLimit : Nat := 255

/-- The longest path, in bytes. -/
def pathLimit : Nat := 4095

/-- Follow parts from a folder. The last part need not be there. -/
def follow (disk : Disk) : Place → List Text → Except StorageFault Place
  | here, [] => .ok here
  | here, part :: rest =>
    if Path.isIdle part then follow disk here rest
    else if part == ['.', '.'] then follow disk here.dropLast rest
    else if nameLimit < Text.size part then .error .nameTooLong
    else if rest.isEmpty then .ok (here ++ [part])
    else
      match disk.entryAt (here ++ [part]) with
      | some .folder => follow disk (here ++ [part]) rest
      | some _ => .error .notFolder
      | none => .error .missing

def origin (disk : Disk) (path : Path) : Place := if Path.isAbsolute path then [] else disk.home

/-- What is wrong with a path before it is followed. -/
def badPath? (path : Path) : Option StorageFault :=
  if path.contains (Char.ofNat 0) then some .nulInName
  else if path.isEmpty then some .missing
  else if pathLimit < Text.size path then some .nameTooLong
  else none

def locate (disk : Disk) (path : Path) : Except StorageFault Place :=
  match badPath? path with
  | some fault => .error fault
  | none => disk.follow (disk.origin path) (Path.parts path)

def isFile (disk : Disk) (path : Path) : Bool :=
  match disk.locate path with
  | .ok place => match disk.entryAt place with | some (.file _) => true | _ => false
  | .error _ => false

/-- What a place holds. Of a device it is one block, since nothing that is read here goes on after so many
zeros. -/
def contents (disk : Disk) (place : Place) : Packed :=
  match disk.entryAt place with
  | some (.file data) => data
  | some .device => Packed.zeros blockSize
  | _ => Packed.empty

/-- All that can be read through a path. -/
def read (disk : Disk) (path : Path) : Except StorageFault Packed :=
  match disk.locate path with
  | .error fault => .error fault
  | .ok place =>
    match disk.entryAt place with
    | none => .error .missing
    | some .folder => .error .folder
    | some _ => .ok (disk.contents place)

/-- Where a file of that path would be made. A path that ends with a slash can only name a folder, and its
last name is not even looked at. -/
def locateNew (disk : Disk) (path : Path) : Except StorageFault Place :=
  let parts := Path.parts path
  if parts.getLast? == some [] then
    let named := (parts.reverse.dropWhile List.isEmpty).reverse
    match disk.follow (disk.origin path) (named.dropLast ++ [['.']]) with
    | .error fault => .error fault
    | .ok _ => .error .folder
  else disk.follow (disk.origin path) parts

/-- Make a file of no bytes, or take the bytes of the file that is there. -/
def create (path : Path) : DiskAct Place := fun disk =>
  match badPath? path with
  | some fault => .error fault disk
  | none =>
    match disk.locateNew path with
    | .error fault => .error fault disk
    | .ok place =>
      match disk.entryAt place with
      | some .folder => .error .folder disk
      | some .device => .ok place disk
      | _ => .ok place (disk.put place (.file Packed.empty))

/-- Make the folders that are missing along some steps. -/
def makeFolders : Place → List Text → DiskAct Unit
  | _, [] => pure ()
  | here, step :: rest => do
    if step == ['.', '.'] then makeFolders here.dropLast rest
    else if nameLimit < Text.size step then throw .nameTooLong
    else
      match (← get).entryAt (here ++ [step]) with
      | some .folder => makeFolders (here ++ [step]) rest
      | some _ => throw .notFolder
      | none =>
        modify (put (here ++ [step]) .folder)
        makeFolders (here ++ [step]) rest

/-- Make the folders that the file of a path needs. -/
def makeParents (path : Path) : DiskAct Unit := do
  match badPath? (Path.parent path) with
  | some .missing | none => makeFolders ((← get).origin path) (Path.steps path).dropLast
  | some fault => throw fault

/-- Data with some bytes written at an offset, over what is there; a gap is filled with zeros. -/
def overlay (data : Packed) (offset : Nat) (bytes : Packed) : Packed :=
  (data.take offset).padded (offset - data.size) ++ bytes ++ data.drop (offset + bytes.size)

/-- Write bytes into what a place holds. Writing none changes nothing, wherever it is. -/
def write (place : Place) (offset : Nat) (bytes : Packed) (disk : Disk) : Except StorageFault Disk :=
  if bytes.size == 0 then .ok disk
  else
    match disk.entryAt place with
    | some (.file data) => .ok (disk.put place (.file (overlay data offset bytes)))
    | _ => .error .full

end Disk

end GameHost
