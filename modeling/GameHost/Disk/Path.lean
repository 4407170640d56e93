import GameHost.Text

/-!
Paths as text. Parts are separated by slashes, and a path that begins with one is absolute. Nothing is
simplified: what the parts mean is decided where a path is followed.
-/
namespace GameHost

abbrev Path := Text

namespace Path

def isAbsolute (path : Path) : Bool := path.head? == some '/'

/-- A path below another one. An absolute path stays what it is. -/
def join (base path : Path) : Path :=
  if isAbsolute path || base.isEmpty then path
  else if base.getLast? == some '/' then base ++ path
  else base ++ '/' :: path

/-- The texts between the slashes, empty ones included. -/
def parts : Path → List Text
  | [] => [[]]
  | c :: rest =>
    if c == '/' then [] :: parts rest
    else
      match parts rest with
      | part :: later => (c :: part) :: later
      | [] => [[c]]

/-- A single point and an empty part name the folder they stand in. -/
def isIdle (part : Text) : Bool := part.isEmpty || part == ['.']

/-- The parts that lead somewhere else. -/
def steps (path : Path) : List Text := (parts path).filter (! isIdle ·)

/-- The path without its last step, as it was written. -/
def parent (path : Path) : Path :=
  let back := (parts path).reverse
  let kept := ((back.dropWhile isIdle).drop 1).dropWhile isIdle
  List.intercalate ['/'] kept.reverse

/-- What follows the last slash or backslash. -/
def fileName (path : Path) : Text :=
  (path.reverse.takeWhile fun c => !(c == '/' || c == '\\')).reverse

/-- The path with an extension, unless its file name has a point already. -/
def withExtension (path : Path) (extension : Text) : Path :=
  if (fileName path).contains '.' then path else path ++ extension

end Path

end GameHost
