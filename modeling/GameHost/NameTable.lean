import GameHost.Text

/-!
Tables by name. Entries keep the order in which they were added, and a name finds its entry in any case.
-/
namespace GameHost

/-- Entries with the names they were added under, oldest first. -/
abbrev NameTable (α : Type) := List (Text × α)

namespace NameTable

def find? (table : NameTable α) (name : Text) : Option (Text × α) :=
  List.find? (fun entry => Text.same entry.1 name) table

def has (table : NameTable α) (name : Text) : Bool := (find? table name).isSome

def get? (table : NameTable α) (name : Text) : Option α := (find? table name).map Prod.snd

def names (table : NameTable α) : List Text := table.map Prod.fst

def add (table : NameTable α) (name : Text) (entry : α) : NameTable α := table ++ [(name, entry)]

/-- Give the entry of a name a new content; it keeps its place and its spelling. -/
def update (table : NameTable α) (name : Text) (change : α → α) : NameTable α :=
  table.map fun entry => if Text.same entry.1 name then (entry.1, change entry.2) else entry

def erase (table : NameTable α) (name : Text) : NameTable α :=
  List.filter (fun entry => !Text.same entry.1 name) table

/-- The first name that is the given text in any case, or else the first that begins with it. -/
def complete (names : List Text) (start : Text) : Option Text :=
  if start.isEmpty then none
  else
    match names.find? (Text.same · start) with
    | some name => some name
    | none => names.find? fun name => (Text.fold start).isPrefixOf (Text.fold name)

end NameTable

end GameHost
