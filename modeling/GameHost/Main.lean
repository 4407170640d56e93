import GameHost.Headless

/-!
The command line. The folders that the options name are read into memory, the host runs on them, and what it
wrote is put back:

  [-basedir dir] [-game dir] [-connect address] [-record file | -playback file] [-frames n]
  [-frametime seconds] [+set variable value] [+command arguments]
-/
namespace GameHost.CommandLine

/-- The path of a place on the machine. -/
def placePath (place : Place) : String :=
  String.ofList (place.flatMap fun name => '/' :: name)

/-- Take a file of the machine into the disk, or a folder with all that is in it. -/
partial def load (path : String) (place : Place) (disk : Disk) : IO Disk := do
  let real ← IO.FS.realPath path
  match (← real.metadata).type with
  | .dir =>
    let mut disk := disk.put place .folder
    for item in ← real.readDir do
      disk ← load (placePath (place ++ [item.fileName.toList])) (place ++ [item.fileName.toList]) disk
    return disk
  | .file => return disk.put place (.file ⟨← IO.FS.readBinFile real⟩)
  | _ => return disk.put place .device

def isFolder (path : String) : IO Bool := do
  try
    (← IO.FS.realPath path).isDir
  catch _ => return false

/-- Take what a path leads to into the disk, or the folder that it leads into if there is nothing yet. -/
def loadPath (path : Path) (disk : Disk) : IO Disk := do
  let ready :=
    match Disk.makeParents path disk with
    | .ok _ disk => disk
    | .error _ disk => disk
  match ready.locate path with
  | .error _ => return disk
  | .ok place =>
    try
      load (placePath place) place ready
    catch _ => return if ← isFolder (placePath place.dropLast) then ready else disk

/-- Put what has changed between two disks onto the machine. -/
def save (before after : Disk) : IO Unit := do
  for (place, item) in after.entries do
    if before.entries.lookup place != some item then
      match item with
      | .folder => IO.FS.createDirAll (placePath place)
      | .file data => IO.FS.writeBinFile (placePath place) data.array
      | .device => pure ()

/-- The place of the folder the program was started in. -/
def currentPlace : IO Place := do
  return Path.steps (← IO.currentDir).toString.toList

def run (arguments : List String) : IO UInt32 := do
  let args := Arguments.ofList ("host".toList :: arguments.map String.toList)
  let options := Options.ofArguments args
  let folders := Path.join options.base SearchPath.standardFolder :: options.gameFolder?.toList
  let mut disk := Disk.empty (← currentPlace)
  for path in folders ++ options.playback.toList ++ options.record.toList do
    disk ← loadPath path disk
  let outcome := Headless.run args disk Console.empty
  save disk outcome.disk
  IO.print (String.ofList outcome.console.terminalText)
  match outcome.frames with
  | .ok _ => return 0
  | .error fault =>
    IO.eprint (String.ofList (Headless.complaint fault))
    return 1

end GameHost.CommandLine

def main (arguments : List String) : IO UInt32 := GameHost.CommandLine.run arguments
