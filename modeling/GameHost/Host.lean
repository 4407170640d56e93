import GameHost.Fault
import GameHost.Shell.Builtin

/-!
A shell at work inside a program. A line is looked up as a command, then as an alias, then as a variable;
what is none of these goes to the server if the program is connected to one. Queued lines run once a frame,
until the text is used up or a command leaves the rest to the next frame.
-/
namespace GameHost

/-- A shell, and all else that the program around it keeps. -/
structure Host (α ω : Type) where
  shell : Shell α
  world : ω

/-- What a program gives to the shell inside it. -/
class Program (α : outParam Type) (ω : Type) where
  /-- The contents of a script file. -/
  script : Text → ω → Option Bytes
  /-- Hand the shell's line to the server. -/
  forward : Act (Host α ω) Unit
  /-- Whether a player's line that names nothing goes to the server. -/
  forwardsUnknown : ω → Bool
  /-- Run one of the program's own commands, given how to run a further line. -/
  perform : (Text → Source → Act (Host α ω) Unit) → α → Act (Host α ω) Unit

namespace Host

variable {α ω : Type}

def onShell (change : Shell α → Shell α) : Act (Host α ω) Unit :=
  modify fun h => { h with shell := change h.shell }

/-- Change the shell and hand on a result. -/
def askShell (change : Shell α → β × Shell α) : Act (Host α ω) β := fun h =>
  let (result, shell) := change h.shell
  .ok result { h with shell }

def print (text : Text) : Act (Host α ω) Unit := onShell (Shell.print text)

/-- What the first word of the shell's line names. -/
inductive Meaning (α : Type) where
  | nothing
  | command (action : Action α)
  | alias (value : Text)
  | variable
  | unknown

def meaning (s : Shell α) : Meaning α :=
  match s.line.words with
  | [] => .nothing
  | name :: _ =>
    match NameTable.get? s.commands name with
    | some action => .command action
    | none =>
      match NameTable.get? s.aliases name with
      | some value => .alias value
      | none => if NameTable.has s.vars name then .variable else .unknown

/-- An alias whose number in its frame reaches this is not expanded. -/
def expansionLimit : Nat := 16

/-- Queue the value of an alias, as lines of their own, ahead of all other text. -/
def expand (value : Text) (s : Shell α) : Shell α :=
  let s := { s with expansions := s.expansions + 1 }
  if expansionLimit ≤ s.expansions then s.print "ALIAS_LOOP_COUNT\n"
  else s.insertText (if value.getLast? == some '\n' then value else value ++ ['\n'])

section
variable [Program α ω]

/-- Hand the line to the server if the player gave it. -/
def forwardLine : Act (Host α ω) Unit := do
  if (← get).shell.source == .player then Program.forward

/-- Queue the lines of a script file ahead of all other text. -/
def runScript : Act (Host α ω) Unit := do
  let h ← get
  if h.shell.line.count != 2 then print "exec <filename> : execute a script file\n"
  else
    let name := h.shell.line.word 1
    match Program.script name h.world with
    | some data =>
      print ("execing " ++ name ++ "\n")
      onShell (Shell.insertText (Text.decode data ++ ['\n']))
    | none => print ("couldn't exec " ++ name ++ "\n")

def runProbe (run : Text → Source → Act (Host α ω) Unit) : Probe → Act (Host α ω) Unit
  | .report => onShell fun s => s.print s.callText
  | .fail => throw .overflow
  | .queue => onShell fun s => s.insertText (s.line.tail ++ ['\n'])
  | .relay => do run (← get).shell.line.tail .remote
  | .forget => onShell fun s => s.removeCommand (s.line.word 1)

def runAction (run : Text → Source → Act (Host α ω) Unit) : Action α → Act (Host α ω) Unit
  | .builtin command => onShell (Shell.runBuiltin command)
  | .script => runScript
  | .forward => forwardLine
  | .probe kind => runProbe run kind
  | .own command => Program.perform run command

/-- What a line does that names nothing. Names that begin with a sign are for the player's own keys. -/
def runUnknown : Act (Host α ω) Unit := do
  let h ← get
  let name := h.shell.line.word 0
  let signed := name.head? == some '+' || name.head? == some '-'
  if h.shell.source == .player && Program.forwardsUnknown (α := α) h.world && !signed then
    Program.forward
  else print ("Unknown command \"" ++ name ++ "\"\n")

/-- Run one line, and the lines that commands run from within it to the given depth. -/
def runLineWithin : Nat → Text → Source → Act (Host α ω) Unit
  | 0, _, _ => throw .endless
  | depth + 1, text, source => do
    onShell (Shell.accept text source)
    match meaning (← get).shell with
    | .nothing => pure ()
    | .command action => runAction (runLineWithin depth) action
    | .alias value => onShell (expand value)
    | .variable =>
      onShell fun s => (s.useVariable (s.line.word 0) s.line.count (s.line.word 1)).2
    | .unknown => runUnknown

/-- Run one line. A line run from within it is a part of it, so its length bounds their depth. -/
def runLine (text : Text) (source : Source) : Act (Host α ω) Unit :=
  runLineWithin (text.length + 1) text source

/-- Run the pending lines, at most `budget` of them. -/
def runPending : Nat → Act (Host α ω) Unit
  | 0 => do
    unless (← get).shell.pending.isEmpty do throw .endless
  | budget + 1 => do
    match ← askShell Shell.nextLine with
    | none => pure ()
    | some line =>
      if (Text.trim line).isEmpty then runPending budget
      else
        runLine line .player
        if (← get).shell.paused then onShell fun s => { s with paused := false }
        else runPending budget

/-- More lines than any host will live to run in a frame. Only commands that queue text of their own over and
over could reach it. -/
def lineBudget : Nat := Nat.pow 2 62

/-- Run the lines of one frame. -/
def tick : Act (Host α ω) Unit := do
  onShell fun s => { s with expansions := 0 }
  runPending lineBudget

end

end Host

end GameHost
