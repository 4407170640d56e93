import GameHost.Text

/-!
Where the program's own output goes: to the terminal, or, while a capture is on, into a text that can be
drained and handed on.
-/
namespace GameHost

/-- What was printed, the latest piece first. -/
structure Console where
  terminal : List Text
  capture : Option (List Text)
  deriving DecidableEq, Repr

namespace Console

def empty : Console := ⟨[], none⟩

/-- A console that captures from the start. -/
def captured : Console := ⟨[], some []⟩

def print (text : Text) (c : Console) : Console :=
  match c.capture with
  | some pieces => { c with capture := some (text :: pieces) }
  | none => { c with terminal := text :: c.terminal }

/-- Pieces in the order in which they were printed. -/
def inOrder (pieces : List Text) : Text := pieces.reverse.flatten

def terminalText (c : Console) : Text := inOrder c.terminal

def capturedText (c : Console) : Text := inOrder (c.capture.getD [])

/-- Start a capture, forgetting what an earlier one holds. -/
def beginCapture (c : Console) : Console := { c with capture := some [] }

def endCapture (c : Console) : Option Text × Console := (c.capture.map inOrder, { c with capture := none })

/-- What was captured so far; the capture goes on empty. -/
def drain (c : Console) : Text × Console := (c.capturedText, { c with capture := c.capture.map fun _ => [] })

end Console

end GameHost
