import GameHost.Host

/-!
What becomes of the commands of a shell: registering adds those whose names are free, and nothing that the shell
does by itself changes them.
-/
namespace GameHost

theorem NameTable.has_add {α : Type} (table : NameTable α) (name other : Text) (entry : α) :
    NameTable.has (NameTable.add table name entry) other = (NameTable.has table other || Text.same name other) := by
  simp only [NameTable.has, NameTable.find?, NameTable.add, List.find?_append]
  cases List.find? (fun entry => Text.same entry.1 other) table with
  | some found => rfl
  | none => cases same : Text.same name other <;> simp [same]

namespace Shell

variable {α : Type}

/-- No command, alias or variable has the name. -/
def Free (s : Shell α) (name : Text) : Prop :=
  NameTable.has s.commands name = false ∧ NameTable.has s.aliases name = false ∧ NameTable.has s.vars name = false

theorem registerCommand_of_free {s : Shell α} {name : Text} (free : s.Free name) (action : Action α) :
    (s.registerCommand name action).2 = { s with commands := NameTable.add s.commands name action } := by
  obtain ⟨commands, aliases, vars⟩ := free
  simp [registerCommand, addCommand, commands, aliases, vars]

theorem registerAll_of_free (entries : List (Text × Action α)) (s : Shell α) (free : ∀ entry ∈ entries, s.Free entry.1)
    (different : entries.Pairwise fun a b => Text.same a.1 b.1 = false) :
    s.registerAll entries = { s with commands := s.commands ++ entries } := by
  induction entries generalizing s with
  | nil => simp [registerAll]
  | cons entry rest ih =>
    have here := registerCommand_of_free (free entry List.mem_cons_self) entry.2
    have later : ∀ other ∈ rest, Text.same entry.1 other.1 = false :=
      fun _ member => List.rel_of_pairwise_cons different member
    have onward : ∀ other ∈ rest, Free { s with commands := NameTable.add s.commands entry.1 entry.2 } other.1 := by
      intro other member
      obtain ⟨commands, aliases, vars⟩ := free other (List.mem_cons_of_mem _ member)
      exact ⟨by rw [NameTable.has_add, commands, later other member]; rfl, aliases, vars⟩
    have rests := ih _ onward (List.Pairwise.of_cons different)
    calc s.registerAll (entry :: rest) = registerAll rest (s.registerCommand entry.1 entry.2).2 := rfl
      _ = { s with commands := s.commands ++ entry :: rest } := by
        rw [here, rests]
        simp [NameTable.add]

@[simp] theorem commands_print (text : Text) (s : Shell α) : (s.print text).commands = s.commands := rfl

@[simp] theorem commands_addText (text : Text) (s : Shell α) : (s.addText text).commands = s.commands := by
  unfold addText
  split <;> rfl

@[simp] theorem commands_insertText (text : Text) (s : Shell α) : (s.insertText text).commands = s.commands := by
  unfold insertText
  split <;> rfl

/-- What is changed only by registering and removing commands, by queueing and taking text and by expanding aliases. -/
def standing (s : Shell α) : NameTable (Action α) × Text × Nat := (s.commands, s.pending, s.expansions)

theorem standing_setVariable (name text : Text) (s : Shell α) : (s.setVariable name text).standing = s.standing := by
  unfold setVariable
  split
  · rfl
  · split <;> rfl

theorem standing_useVariable (name : Text) (count : Nat) (text : Text) (s : Shell α) :
    (s.useVariable name count text).2.standing = s.standing := by
  unfold useVariable
  split
  · rfl
  · split
    · rfl
    · exact standing_setVariable _ _ s

theorem commands_useVariable (name : Text) (count : Nat) (text : Text) (s : Shell α) :
    (s.useVariable name count text).2.commands = s.commands :=
  congrArg Prod.fst (standing_useVariable name count text s)

theorem pending_useVariable (name : Text) (count : Nat) (text : Text) (s : Shell α) :
    (s.useVariable name count text).2.pending = s.pending :=
  congrArg (fun standing => standing.2.1) (standing_useVariable name count text s)

theorem standing_setAlias (name value : Text) (s : Shell α) : (s.setAlias name value).2.standing = s.standing := by
  unfold setAlias
  repeat' split
  all_goals rfl

theorem foldl_print {β : Type} (entries : List β) (describe : β → Text) (s : Shell α) :
    entries.foldl (fun s entry => s.print (describe entry)) s =
      { s with console := entries.foldl (fun console entry => console.print (describe entry)) s.console } := by
  induction entries generalizing s with
  | nil => rfl
  | cons entry rest ih => exact ih (s.print (describe entry))

theorem standing_foldl_print {β : Type} (entries : List β) (describe : β → Text) (s : Shell α) :
    (entries.foldl (fun s entry => s.print (describe entry)) s).standing = s.standing := by
  rw [foldl_print]
  rfl

theorem standing_list {β : Type} (table : NameTable β) (describe : Text × β → Text) (what : Text)
    (pattern : Option Text) (s : Shell α) : (s.list table describe what pattern).2.standing = s.standing :=
  standing_foldl_print _ describe s

theorem standing_runBuiltin {command : Builtin} (other : command ≠ .runArguments) (s : Shell α) :
    (runBuiltin command s).standing = s.standing := by
  match command, other with
  | .listCommands, _ | .listAliases, _ | .listVariables, _ => exact standing_list ..
  | .echo, _ | .wait, _ => rfl
  | .alias, _ =>
    simp only [runBuiltin, runAlias]
    split
    · exact standing_foldl_print _ _ _
    · exact standing_setAlias ..
  | .unalias, _ =>
    simp only [runBuiltin, runUnalias, removeAlias]
    split
    · rfl
    · cases NameTable.has s.aliases (s.line.word 1) <;> rfl
  | .setVariable, _ =>
    simp only [runBuiltin, runSet]
    split
    · rfl
    · exact standing_setVariable ..
  | .runArguments, other => exact absurd rfl other

theorem pending_runBuiltin {command : Builtin} (other : command ≠ .runArguments) (s : Shell α) :
    (runBuiltin command s).pending = s.pending :=
  congrArg (fun standing => standing.2.1) (standing_runBuiltin other s)

theorem commands_runBuiltin (command : Builtin) (s : Shell α) : (runBuiltin command s).commands = s.commands := by
  by_cases other : command = .runArguments
  · simp only [other, runBuiltin, runArguments]
    split
    · rfl
    · split
      · rfl
      · exact commands_insertText ..
  · exact congrArg Prod.fst (standing_runBuiltin other s)

end Shell

namespace Host

variable {α : Type}

@[simp] theorem commands_expand (value : Text) (s : Shell α) : (expand value s).commands = s.commands := by
  unfold expand
  dsimp only
  split
  · rfl
  · exact Shell.commands_insertText ..

end Host

end GameHost
