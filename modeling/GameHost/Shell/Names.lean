import GameHost.Glob
import GameHost.Shell

/-!
The names a shell knows. Commands, aliases and variables share one space of names, in which case does not
count; what is refused is told on the console and changes nothing else.
-/
namespace GameHost.Shell

variable {α : Type}

/-- Add a command under a name that no command and no alias has. -/
def addCommand (name : Text) (action : Action α) (s : Shell α) : Bool × Shell α :=
  if NameTable.has s.commands name || NameTable.has s.aliases name then
    (false, s.print ("Cmd_AddCommand: " ++ name ++ " already defined\n"))
  else (true, { s with commands := NameTable.add s.commands name action })

/-- Add a command under a name that nothing has. -/
def registerCommand (name : Text) (action : Action α) (s : Shell α) : Bool × Shell α :=
  if NameTable.has s.vars name then
    (false, s.print ("Cmd_AddCommand: " ++ name ++ " already defined as a var\n"))
  else s.addCommand name action

def removeCommand (name : Text) (s : Shell α) : Shell α :=
  if NameTable.has s.commands name then { s with commands := NameTable.erase s.commands name }
  else s.print ("Cmd_RemoveCommand: " ++ name ++ " not added\n")

def completeCommand (start : Text) (s : Shell α) : Option Text :=
  NameTable.complete (NameTable.names s.commands ++ NameTable.names s.aliases) start

/-- Alias names are shorter than this. -/
def aliasNameLimit : Nat := 32

/-- Give a name a value as an alias, new or in place of its old value. -/
def setAlias (name value : Text) (s : Shell α) : Bool × Shell α :=
  if NameTable.has s.vars name then
    (false, s.print ("Can't alias \"" ++ name ++ "\", it is a variable\n"))
  else if aliasNameLimit ≤ Text.size name then (false, s.print "Alias name is too long\n")
  else if NameTable.has s.commands name then
    (false, s.print ("Can't alias \"" ++ name ++ "\", it is a command\n"))
  else if NameTable.has s.aliases name then
    (true, { s with aliases := NameTable.update s.aliases name fun _ => value })
  else (true, { s with aliases := NameTable.add s.aliases name value })

def removeAlias (name : Text) (s : Shell α) : Bool × Shell α :=
  if NameTable.has s.aliases name then
    (true, { s with aliases := NameTable.erase s.aliases name })
  else (false, s)

/-- Lines of command text that set every alias again. -/
def aliasScript (s : Shell α) : Text :=
  s.aliases.flatMap fun entry => "alias " ++ entry.1 ++ " \"" ++ Text.trimEnd entry.2 ++ "\"\n"

def newVariable (text : Text) (archived shared : Bool) : Variable :=
  { text, value := Numeral.toSingle text, archived, shared, changed := true }

/-- Add a variable under a name that no variable has. -/
def addVariable (name text : Text) (archived shared : Bool) (s : Shell α) : Bool × Shell α :=
  if NameTable.has s.vars name then
    (false, s.print ("Can't register variable " ++ name ++ ", already defined\n"))
  else (true, { s with vars := NameTable.add s.vars name (newVariable text archived shared) })

/-- Add a variable under a name that nothing has. -/
def registerVariable (name text : Text) (archived shared : Bool) (s : Shell α) : Bool × Shell α :=
  if NameTable.has s.commands name || NameTable.has s.aliases name then
    (false, s.print ("Cvar_RegisterVariable: " ++ name ++ " is a command\n"))
  else s.addVariable name text archived shared

def assign (text : Text) (v : Variable) : Variable :=
  { v with text, value := Numeral.toSingle text, changed := true }

/-- Give a variable a new text. The same text again is no change. -/
def setVariable (name text : Text) (s : Shell α) : Shell α :=
  match NameTable.find? s.vars name with
  | none => s.print ("Cvar_Set: variable " ++ name ++ " not found\n")
  | some (spelling, v) =>
    if v.text == text then s
    else
      { s with
        vars := NameTable.update s.vars name (assign text)
        announcements :=
          if v.shared then (spelling, assign text v) :: s.announcements else s.announcements }

/-- Give a variable the text of a number. -/
def setVariableTo (name : Text) (value : Single) (s : Shell α) : Shell α :=
  s.setVariable name (Numeral.ofSingle value)

/-- The number of a variable, zero if there is none of that name. -/
def variableValue (name : Text) (s : Shell α) : Single :=
  (NameTable.get? s.vars name).elim Single.zero Variable.value

/-- The text of a variable, empty if there is none of that name. -/
def variableText (name : Text) (s : Shell α) : Text :=
  (NameTable.get? s.vars name).elim [] Variable.text

def completeVariable (start : Text) (s : Shell α) : Option Text :=
  NameTable.complete (NameTable.names s.vars) start

/-- A line that begins with a variable's name: alone it shows the variable, with a second word it sets the
variable to it. Tells whether the name is that of a variable. -/
def useVariable (name : Text) (count : Nat) (text : Text) (s : Shell α) : Bool × Shell α :=
  match NameTable.find? s.vars name with
  | none => (false, s)
  | some (spelling, v) =>
    if count == 1 then (true, s.print ("\"" ++ spelling ++ "\" is \"" ++ v.text ++ "\"\n"))
    else (true, s.setVariable spelling text)

/-- Lines of command text that set every archived variable again. -/
def variableScript (s : Shell α) : Text :=
  s.vars.flatMap fun entry =>
    if entry.2.archived then entry.1 ++ " \"" ++ entry.2.text ++ "\"\n" else []

/-- Print a line for every entry whose name fits a pattern, then how many there are and how many fit. -/
def list (table : NameTable β) (describe : Text × β → Text) (what : Text) (pattern : Option Text)
    (s : Shell α) : (Nat × Nat) × Shell α :=
  let listed := table.filter fun entry => Glob.matchesText (pattern.getD ['*']) entry.1
  let s := listed.foldl (fun s entry => s.print (describe entry)) s
  ((table.length, listed.length),
    s.print (Text.ofNat table.length ++ " " ++ what ++ ", " ++ Text.ofNat listed.length ++ " matching\n"))

def listCommands (pattern : Option Text) (s : Shell α) : (Nat × Nat) × Shell α :=
  s.list s.commands (fun entry => entry.1 ++ "\n") "commands" pattern

def listAliases (pattern : Option Text) (s : Shell α) : (Nat × Nat) × Shell α :=
  s.list s.aliases (fun entry => entry.1 ++ " : " ++ Text.trimEnd entry.2 ++ "\n") "aliases" pattern

/-- Archived variables are marked with an asterisk and shared ones with an S. -/
def variableLine (entry : Text × Variable) : Text :=
  (if entry.2.archived then ['*'] else [' ']) ++ (if entry.2.shared then ['S'] else [' ']) ++
    " " ++ entry.1 ++ " \"" ++ entry.2.text ++ "\"\n"

def listVariables (pattern : Option Text) (s : Shell α) : (Nat × Nat) × Shell α :=
  s.list s.vars variableLine "cvars" pattern

end GameHost.Shell
