import GameHost.Disk

/-!
Where the host looks for scripts and demos, and where it puts what it writes.
-/
namespace GameHost

structure SearchPath where
  /-- The folder that demos and the configuration are written to. -/
  writeFolder : Path
  /-- The folders that are searched, the first one first. -/
  folders : List Path
  deriving DecidableEq, Repr

namespace SearchPath

/-- The folder of a game below the base folder that is always searched. -/
def standardFolder : Text := "base"

def ofBase (base : Path) : SearchPath :=
  let folder := Path.join base standardFolder
  ⟨folder, [folder]⟩

/-- Search a folder before all others, and write to it. -/
def addGame (folder : Path) (s : SearchPath) : SearchPath := ⟨folder, folder :: s.folders⟩

/-- The path of a file of that name in the first folder that has one. -/
def find (name : Text) (s : SearchPath) (disk : Disk) : Option Path :=
  (s.folders.map (Path.join · name)).find? disk.isFile

def load (name : Text) (s : SearchPath) (disk : Disk) : Option Bytes :=
  (s.find name disk).bind fun path => (disk.read path).toOption.map Packed.bytes

/-- The path under which a file of that name is written. -/
def writePath (name : Text) (s : SearchPath) : Path := Path.join s.writeFolder name

end SearchPath

end GameHost
