import GameHost.Token

/-!
A command line taken apart: its words, and the text after the first word as it was written.
-/
namespace GameHost

structure Line where
  words : List Text
  /-- The text after the first word, without the blanks around it. -/
  tail : Text
  deriving DecidableEq, Repr

namespace Line

/-- Words past this count are dropped. -/
def wordLimit : Nat := 80

def empty : Line := ⟨[], []⟩

/-- A line ends at the first empty word, be it an empty pair of quotes or the end of the text. -/
def ofText (text : Text) : Line :=
  let scans := Token.scans text
  let words := (scans.map Token.Scan.word).takeWhile (! ·.isEmpty)
  { words := words.take wordLimit
    tail :=
      match words, scans with
      | _ :: _, { rest := some rest, .. } :: _ => Text.trim rest
      | _, _ => [] }

def count (line : Line) : Nat := line.words.length

/-- A word by its place; there are only empty words past the last one. -/
def word (line : Line) (place : Nat) : Text := line.words.getD place []

/-- The words from a place on, with single spaces between them. -/
def wordsFrom (line : Line) (place : Nat) : Text := Text.spaced (line.words.drop place)

end Line

end GameHost
