import GameHost.Shell.Names

/-!
The commands every shell has. They read the line that called them and change nothing but the shell.
-/
namespace GameHost.Shell

variable {α : Type}

/-- The pattern of a listing command: its one argument, if it has exactly one. -/
def pattern? (s : Shell α) : Option Text := if s.line.count == 2 then some (s.line.word 1) else none

def runEcho (s : Shell α) : Shell α := s.print (s.line.wordsFrom 1 ++ "\n")

/-- Alone, show the aliases; with arguments, make the later ones the value of the first. -/
def runAlias (s : Shell α) : Shell α :=
  if s.line.count == 1 then
    s.aliases.foldl (fun s entry => s.print (entry.1 ++ " : " ++ entry.2))
      (s.print "Current alias commands:\n")
  else (s.setAlias (s.line.word 1) (s.line.wordsFrom 2 ++ "\n")).2

def runUnalias (s : Shell α) : Shell α :=
  if s.line.count != 2 then s.print "unalias <name> : delete an alias\n"
  else
    match s.removeAlias (s.line.word 1) with
    | (true, s) => s
    | (false, s) => s.print (s.line.word 1 ++ " is not an alias\n")

/-- Queue the commands among the program's arguments ahead of all other text. -/
def runArguments (s : Shell α) : Shell α :=
  if s.line.count != 1 then s.print "stuffcmds : execute command line parameters\n"
  else
    let text := s.arguments.commands
    if text.isEmpty then s else s.insertText text

def runSet (s : Shell α) : Shell α :=
  if s.line.count != 3 then s.print "usage: set <variable> <value>\n"
  else s.setVariable (s.line.word 1) (s.line.word 2)

def runBuiltin : Builtin → Shell α → Shell α
  | .listCommands, s => (s.listCommands s.pattern?).2
  | .echo, s => s.runEcho
  | .alias, s => s.runAlias
  | .unalias, s => s.runUnalias
  | .listAliases, s => (s.listAliases s.pattern?).2
  | .wait, s => { s with paused := true }
  | .runArguments, s => s.runArguments
  | .setVariable, s => s.runSet
  | .listVariables, s => (s.listVariables s.pattern?).2

/-- The names of the commands every shell has. -/
def standardCommands : List (Text × Action α) :=
  [("cmdlist", .builtin .listCommands), ("exec", .script), ("echo", .builtin .echo),
   ("alias", .builtin .alias), ("unalias", .builtin .unalias), ("aliaslist", .builtin .listAliases),
   ("wait", .builtin .wait), ("stuffcmds", .builtin .runArguments), ("set", .builtin .setVariable),
   ("cvarlist", .builtin .listVariables), ("cmd", .forward)]

/-- Register commands one after another; those whose name is taken are told and left out. -/
def registerAll (commands : List (Text × Action α)) (s : Shell α) : Shell α :=
  commands.foldl (fun s entry => (s.registerCommand entry.1 entry.2).2) s

def registerStandard (s : Shell α) : Shell α := s.registerAll standardCommands

/-- How a command was called: source, number of words, the command's name and the text after it. -/
def callText (s : Shell α) : Text :=
  "<" ++ (match s.source with | .player => "Command" | .remote => "Client") ++ " " ++
    Text.ofNat s.line.count ++ " [" ++ s.line.word 0 ++ "] " ++ s.line.tail ++ ">\n"

end GameHost.Shell
