import GameHost.Arguments
import GameHost.Console
import GameHost.Line
import GameHost.NameTable
import GameHost.Numeral

/-!
The command shell of the host: command text waiting to be run, and the commands, aliases and variables it
can name. Commands of the program around the shell are of a type of its own.
-/
namespace GameHost

/-- Where a line comes from. A remote line must not do what only the local player may do. -/
inductive Source where
  | player
  | remote
  deriving DecidableEq, Repr

/-- Commands that need nothing but the shell. -/
inductive Builtin where
  | listCommands
  | echo
  | alias
  | unalias
  | listAliases
  | wait
  | runArguments
  | setVariable
  | listVariables
  deriving DecidableEq, Repr

/-- Small commands for a program to watch and steer the shell with. -/
inductive Probe where
  /-- Print how the command was called. -/
  | report
  /-- Stop with a fault. -/
  | fail
  /-- Queue the text after the command's name ahead of all other text. -/
  | queue
  /-- Run the text after the command's name as a remote line. -/
  | relay
  /-- Remove the command named by the first argument. -/
  | forget
  deriving DecidableEq, Repr

/-- What a command does. -/
inductive Action (α : Type) where
  | builtin (command : Builtin)
  /-- Run a script file. -/
  | script
  /-- Hand the line to the server. -/
  | forward
  | probe (kind : Probe)
  | own (command : α)
  deriving DecidableEq, Repr

structure Variable where
  text : Text
  /-- The number that the text spells. -/
  value : Single
  /-- Written to the configuration file. -/
  archived : Bool
  /-- Announced to connected peers when it changes. -/
  shared : Bool
  /-- Set by every change, for whoever watches the variable to clear. -/
  changed : Bool
  deriving DecidableEq, Repr

structure Shell (α : Type) where
  console : Console
  /-- Command text not yet run. -/
  pending : Text
  /-- Set by a command that leaves the rest of the text to the next frame. -/
  paused : Bool
  /-- Aliases expanded in this frame. -/
  expansions : Nat
  aliases : NameTable Text
  line : Line
  source : Source
  commands : NameTable (Action α)
  arguments : Arguments
  vars : NameTable Variable
  /-- The shared variables as they were after each of their changes, the latest first. -/
  announcements : List (Text × Variable)
  deriving Repr

namespace Shell

def empty (console : Console) : Shell α :=
  { console, pending := [], paused := false, expansions := 0, aliases := [], line := Line.empty
    source := .player, commands := [], arguments := [], vars := [], announcements := [] }

/-- The shared variables as they were after each of their changes, in order. -/
def announced (s : Shell α) : List (Text × Variable) := s.announcements.reverse

def print (text : Text) (s : Shell α) : Shell α := { s with console := s.console.print text }

/-- Pending text is always shorter than this. -/
def pendingLimit : Nat := 8192

def hasRoom (s : Shell α) (text : Text) : Bool := Text.size s.pending + Text.size text < pendingLimit

/-- Queue text behind all other text. -/
def addText (text : Text) (s : Shell α) : Shell α :=
  if s.hasRoom text then { s with pending := s.pending ++ text }
  else s.print "Cbuf_AddText: overflow\n"

/-- Queue text ahead of all other text. -/
def insertText (text : Text) (s : Shell α) : Shell α :=
  if s.hasRoom text then { s with pending := text ++ s.pending }
  else s.print "Cbuf_InsertText: overflow\n"

def clearText (s : Shell α) : Shell α := { s with pending := [] }

/-- A line ends with a newline, and with a semicolon outside quotes. -/
def endsLine (quoted : Bool) (c : Char) : Bool := c == '\n' || (c == ';' && !quoted)

/-- The first line of a text and what follows the character that ends it. -/
def splitLine : Bool → Text → Text × Text
  | _, [] => ([], [])
  | quoted, c :: rest =>
    if endsLine quoted c then ([], rest)
    else
      let (line, after) := splitLine (quoted != (c == '"')) rest
      (c :: line, after)

/-- Take the next line of the pending text, if there is any text. -/
def nextLine (s : Shell α) : Option Text × Shell α :=
  if s.pending.isEmpty then (none, s)
  else
    let (line, after) := splitLine false s.pending
    (some line, { s with pending := after })

/-- Take a line apart for the command it names. -/
def accept (text : Text) (source : Source) (s : Shell α) : Shell α :=
  { s with line := Line.ofText text, source }

end Shell

end GameHost
