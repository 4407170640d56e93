import GameHost.Proofs.Shell.Comments

/-!
Text with the values of aliases in place. A line that calls for a value is replaced, together with what ended it, by the
lines of the value, and so are the lines of the value in turn; all other lines stay, each with what ended it. Lines are
told apart the same whatever is behind them, so texts one after the other have their expansions one after the other.
-/
namespace GameHost.Shell

/-- A text and its expansion, with the lines of values given by what calls for them. -/
inductive Expanded (value? : Text → Option Text) : Text → Text → Prop where
  | empty : Expanded value? [] []
  | kept {line rest piece later : Text} (begins : Begins (piece ++ rest) line rest) (plain : value? line = none)
      (more : Expanded value? rest later) : Expanded value? (piece ++ rest) (piece ++ later)
  | called {text line rest value inner later : Text} (begins : Begins text line rest) (calls : value? line = some value)
      (lines : Expanded value? (ended value) inner) (more : Expanded value? rest later) :
      Expanded value? text (inner ++ later)

/-- The value that a line calls for: that of the alias it names, if it is run. -/
def value? {α : Type} (s : Shell α) (line : Text) : Option Text :=
  if (Text.trim line).isEmpty then none
  else
    match Host.meaning (s.accept line .player) with
    | .alias value => some value
    | _ => none

theorem value?_eq_some {α : Type} {s : Shell α} {line value : Text} : s.value? line = some value ↔
    (Text.trim line).isEmpty = false ∧ Host.meaning (s.accept line .player) = .alias value := by
  unfold value?
  cases (Text.trim line).isEmpty with
  | true => simp
  | false => cases Host.meaning (s.accept line .player) <;> simp

/-- It is told by the commands and the aliases alone. -/
theorem value?_congr {α : Type} {s t : Shell α} (commands : t.commands = s.commands) (aliases : t.aliases = s.aliases) :
    t.value? = s.value? := by
  funext line
  unfold value? Host.meaning accept
  dsimp only
  rw [commands, aliases]
  split
  · rfl
  · cases (Line.ofText line).words with
    | nil => rfl
    | cons name rest =>
      dsimp only
      cases NameTable.get? s.commands name with
      | some action => rfl
      | none =>
        cases NameTable.get? s.aliases name with
        | some value => rfl
        | none =>
          dsimp only
          cases NameTable.has t.vars name <;> cases NameTable.has s.vars name <;> rfl

section

variable {text line rest : Text}

theorem Begins.unique {other remaining : Text} (begins : Begins text line rest) (again : Begins text other remaining) :
    other = line ∧ remaining = rest := by
  cases begins.2.symm.trans again.2
  exact ⟨rfl, rfl⟩

theorem Begins.exists_piece (begins : Begins text line rest) : ∃ piece, text = piece ++ rest := by
  obtain ⟨piece, split⟩ := begins.suffix
  exact ⟨piece, split.symm⟩

/-- A line with what ended it begins any other text in the same way; without what ended it there is no other text. -/
theorem Begins.onto {piece later : Text} (begins : Begins (piece ++ rest) line rest) (none : rest = [] → later = []) :
    Begins (piece ++ later) line later := by
  obtain ⟨unbroken, ⟨all, used⟩ | ⟨c, ends, split⟩⟩ := begins.split
  · subst used
    rw [none rfl]
    exact begins
  · have whole : piece ++ rest = line ++ [c] ++ rest := by rw [split, List.append_assoc, List.singleton_append]
    have own : piece = line ++ [c] := List.append_cancel_right whole
    rw [own, List.append_assoc, List.singleton_append]
    exact begins_ended (unbroken_iff.1 unbroken) ((endsLine_quotedAfter line c).2 ends) later

/-- The first line of complete text is the same with something behind the text. -/
theorem Begins.behind (begins : Begins text line rest) (complete : Complete text) :
    Complete rest ∧ ∀ after, Begins (text ++ after) line (rest ++ after) := by
  obtain ⟨first, others, more, behind⟩ := complete.begins begins.1
  have here := behind []
  rw [List.append_nil, List.append_nil] at here
  obtain ⟨rfl, rfl⟩ := begins.unique here
  exact ⟨more, behind⟩

end

namespace Expanded

variable {value? : Text → Option Text} {text line rest expanded : Text}

theorem eq_nil (expansion : Expanded value? [] expanded) : expanded = [] := by
  generalize none : ([] : Text) = text at expansion
  cases expansion with
  | empty => rfl
  | kept begins _ _ => exact absurd none.symm begins.1
  | called begins _ _ _ => exact absurd none.symm begins.1

theorem alone (begins : Begins text line []) (plain : value? line = none) : Expanded value? text text := by
  rw [← List.append_nil text] at begins ⊢
  exact .kept begins plain .empty

/-- What becomes of the first line. -/
theorem first (expansion : Expanded value? text expanded) (begins : Begins text line rest) :
    (value? line = none ∧ ∃ piece later, text = piece ++ rest ∧ expanded = piece ++ later ∧ Expanded value? rest later) ∨
    ∃ value inner later, value? line = some value ∧ expanded = inner ++ later ∧
      Expanded value? (ended value) inner ∧ Expanded value? rest later := by
  cases expansion with
  | empty => exact absurd rfl begins.1
  | @kept other remaining piece later again plain more =>
    obtain ⟨rfl, rfl⟩ := begins.unique again
    exact .inl ⟨plain, piece, later, rfl, rfl, more⟩
  | @called _ other remaining value inner later again calls lines more =>
    obtain ⟨rfl, rfl⟩ := begins.unique again
    exact .inr ⟨value, inner, later, calls, rfl, lines, more⟩

/-- A line that stays stands at the head of the expansion too. -/
theorem begins_kept (expansion : Expanded value? text expanded) (begins : Begins text line rest)
    (plain : value? line = none) : ∃ later, Begins expanded line later ∧ Expanded value? rest later := by
  rcases expansion.first begins with ⟨_, piece, later, rfl, rfl, more⟩ | ⟨value, _, _, calls, _⟩
  · refine ⟨later, begins.onto ?_, more⟩
    rintro rfl
    exact more.eq_nil
  · cases plain.symm.trans calls

theorem append {behind later : Text} (expansion : Expanded value? text expanded) (complete : Complete text)
    (more : Expanded value? behind later) : Expanded value? (text ++ behind) (expanded ++ later) := by
  induction expansion with
  | empty => exact more
  | kept begins plain _ ih =>
    obtain ⟨completed, onward⟩ := begins.behind complete
    have there := onward behind
    rw [List.append_assoc] at there
    rw [List.append_assoc, List.append_assoc]
    exact .kept there plain (ih completed)
  | called begins calls lines _ _ ih =>
    obtain ⟨completed, onward⟩ := begins.behind complete
    rw [List.append_assoc]
    exact .called (onward behind) calls lines (ih completed)

/-- The expansion of complete text with something behind it comes apart where the text does. -/
theorem split {behind : Text} (complete : Complete text) (expansion : Expanded value? (text ++ behind) expanded) :
    ∃ inner later, expanded = inner ++ later ∧ Expanded value? text inner ∧ Expanded value? behind later := by
  induction complete generalizing expanded with
  | none => exact ⟨[], expanded, rfl, .empty, expansion⟩
  | @line line rest c unbroken ends _ ih =>
    have here : Begins (line ++ c :: rest) line rest := begins_ended unbroken ends rest
    have there : Begins (line ++ c :: rest ++ behind) line (rest ++ behind) := by
      rw [List.append_assoc]
      exact begins_ended unbroken ends (rest ++ behind)
    rcases expansion.first there with ⟨plain, piece, later, own, rfl, more⟩ | ⟨value, inner, later, calls, rfl, lines, more⟩
    · obtain ⟨tail, later, rfl, expansion, more⟩ := ih more
      have own : line ++ c :: rest = piece ++ rest := by
        rw [← List.append_assoc] at own
        exact List.append_cancel_right own
      refine ⟨piece ++ tail, later, (List.append_assoc ..).symm, ?_, more⟩
      rw [own] at here ⊢
      exact .kept here plain expansion
    · obtain ⟨tail, later, rfl, expansion, more⟩ := ih more
      exact ⟨inner ++ tail, later, (List.append_assoc ..).symm, .called here calls lines expansion, more⟩

theorem unique {other : Text} (expansion : Expanded value? text expanded) (again : Expanded value? text other) :
    other = expanded := by
  induction expansion generalizing other with
  | empty => exact again.eq_nil
  | kept begins plain _ ih =>
    rcases again.first begins with ⟨_, piece, later, own, rfl, more⟩ | ⟨value, _, _, calls, _⟩
    · rw [List.append_cancel_right own, ih more]
    · cases plain.symm.trans calls
  | called begins calls _ _ inner later =>
    rcases again.first begins with ⟨plain, _⟩ | ⟨value, first, rest, same, rfl, lines, more⟩
    · cases calls.symm.trans plain
    · cases calls.symm.trans same
      rw [inner lines, later more]

end Expanded

end GameHost.Shell
