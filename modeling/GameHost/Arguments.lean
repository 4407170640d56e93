import GameHost.Text

/-!
The arguments a program was started with, the first being its own name. Arguments that begin with a plus
sign are console commands, with the arguments up to the next command or option as theirs.
-/
namespace GameHost

/-- Arguments by place, the program's name first. -/
abbrev Arguments := List Text

namespace Arguments

/-- Arguments past this count are ignored. -/
def limit : Nat := 50

def ofList (values : List Text) : Arguments := values.take limit

def value (args : Arguments) (place : Nat) : Text := args.getD place []

/-- Make an argument empty. -/
def blank (args : Arguments) (place : Nat) : Arguments := args.set place []

/-- The place of an argument after the program's name, or zero. -/
def find (args : Arguments) (name : Text) : Nat :=
  match (args.drop 1).findIdx? (· == name) with
  | some place => place + 1
  | none => 0

/-- The argument after the first one of that name. -/
def valueOf? (args : Arguments) (name : Text) : Option Text :=
  if args.find name == 0 then none else args[args.find name + 1]?

/-- The lines of the `+set` arguments, and what stays of the arguments: those used are made empty. -/
def takeSettings : List Text → List Text × List Text
  | [] => ([], [])
  | first :: rest =>
    if first == "+set".toList then
      match rest with
      | [] => (["set  \n"], [[]])
      | [name] => (["set " ++ name ++ " \n"], [[], []])
      | name :: value :: later =>
        let (lines, kept) := takeSettings later
        (("set " ++ name ++ " " ++ value ++ "\n") :: lines, [] :: [] :: [] :: kept)
    else
      let (lines, kept) := takeSettings rest
      (lines, first :: kept)

/-- The lines of the settings among the arguments, and the arguments without them. -/
def settings : Arguments → List Text × Arguments
  | [] => ([], [])
  | program :: rest =>
    let (lines, kept) := takeSettings rest
    (lines, program :: kept)

/-- Whether an argument is an option, which ends a command. A minus sign before a digit or a point makes a
number of it. -/
def isOption : Text → Bool
  | ['-'] => true
  | '-' :: c :: _ => !(c.isDigit || c == '.')
  | _ => false

/-- The command lines among the arguments, one per line. The flag says that a line is open. -/
def commandText : Bool → List Text → Text
  | isOpen, [] => if isOpen then ['\n'] else []
  | isOpen, arg :: rest =>
    match arg with
    | '+' :: command => (if isOpen then ['\n'] else []) ++ command ++ commandText true rest
    | _ =>
      if isOption arg then (if isOpen then ['\n'] else []) ++ commandText false rest
      else if isOpen && !arg.isEmpty then ' ' :: arg ++ commandText isOpen rest
      else commandText isOpen rest

def commands (args : Arguments) : Text := commandText false (args.drop 1)

end Arguments

end GameHost
