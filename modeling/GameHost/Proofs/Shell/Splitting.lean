import GameHost.Proofs.Shell.Batches
import Mathlib.Algebra.Group.Nat.Even

/-!
Cutting text into lines loses nothing. The lines that are taken, with the characters that ended them put back between
them, are the text that waited; nothing that ends a line is left inside one, and only what ends one was removed.
-/
namespace GameHost.Shell

variable {α : Type}

/-- What ends a line after some text of it: a newline, and a semicolon after an even number of quotes. -/
def Ends (line : Text) (c : Char) : Prop := c = '\n' ∨ c = ';' ∧ Even (line.count '"')

/-- A line with nothing inside that would have ended it. -/
def Unbroken (line : Text) : Prop := ∀ before c after, line = before ++ c :: after → ¬Ends before c

/-- Lines with characters between them, and after the last one if there are enough of them. -/
def joined : List Text → List Char → Text
  | line :: lines, c :: ends => line ++ c :: joined lines ends
  | lines, _ => lines.flatten

/-- The lines are taken one after another until there is none. -/
inductive Drains : Shell α → List Text → Shell α → Prop where
  | none {s t : Shell α} (empty : s.nextLine = (none, t)) : Drains s [] t
  | line {s m t : Shell α} {line lines} (taken : s.nextLine = (some line, m)) (more : Drains m lines t) :
      Drains s (line :: lines) t

/-- Whether a quote is open after a text, told whether one is open before it. -/
def quotedAfter : Bool → Text → Bool
  | quoted, [] => quoted
  | quoted, c :: rest => quotedAfter (quoted != (c == '"')) rest

theorem quotedAfter_eq (quoted : Bool) (text : Text) :
    quotedAfter quoted text = (quoted != decide (¬Even (text.count '"'))) := by
  induction text generalizing quoted with
  | nil => cases quoted <;> rfl
  | cons c text ih =>
    rw [quotedAfter, ih]
    by_cases quote : c = '"'
    · subst quote
      by_cases even : Even (text.count '"') <;> cases quoted <;> simp [Nat.even_add_one, even]
    · rw [List.count_cons_of_ne quote, beq_false_of_ne quote, Bool.bne_false]

theorem endsLine_quotedAfter (line : Text) (c : Char) : endsLine (quotedAfter false line) c = true ↔ Ends line c := by
  simp [endsLine, quotedAfter_eq, Ends]

theorem quotedAfter_append (quoted : Bool) (first later : Text) :
    quotedAfter quoted (first ++ later) = quotedAfter (quotedAfter quoted first) later := by
  induction first generalizing quoted with
  | nil => rfl
  | cons c first ih => exact ih _

theorem whole_iff {quoted : Bool} {line : Text} : whole quoted line = true ↔
    ∀ before c after, line = before ++ c :: after → endsLine (quotedAfter quoted before) c = false := by
  induction line generalizing quoted with
  | nil => simp [whole]
  | cons c line ih =>
    simp only [whole, Bool.and_eq_true, Bool.not_eq_true', ih]
    constructor
    · rintro ⟨here, later⟩ before d after split
      cases before with
      | nil =>
        cases split
        exact here
      | cons first before =>
        cases split
        exact later before d after rfl
    · intro all
      exact ⟨all [] c line rfl, fun before d after split => all (c :: before) d after (congrArg (c :: ·) split)⟩

theorem unbroken_iff {line : Text} : Unbroken line ↔ whole false line = true := by
  simp only [Unbroken, whole_iff, ← endsLine_quotedAfter, Bool.not_eq_true]

/-- What the splitter does with a text: it takes all of it, or it stops at the first end of a line. -/
theorem splitLine_cases (quoted : Bool) (text : Text) : whole quoted (splitLine quoted text).1 = true ∧
    (splitLine quoted text = (text, []) ∨ ∃ c, endsLine (quotedAfter quoted (splitLine quoted text).1) c = true ∧
      text = (splitLine quoted text).1 ++ c :: (splitLine quoted text).2) := by
  induction text generalizing quoted with
  | nil => exact ⟨rfl, .inl rfl⟩
  | cons c text ih =>
    unfold splitLine
    cases ends : endsLine quoted c with
    | true => exact ⟨rfl, .inr ⟨c, ends, rfl⟩⟩
    | false =>
      obtain ⟨unbroken, outcome⟩ := ih (quoted != (c == '"'))
      refine ⟨by simpa [whole, ends] using unbroken, ?_⟩
      rcases outcome with all | ⟨d, ends, split⟩
      · exact .inl (by simp [all])
      · exact .inr ⟨d, ends, congrArg (c :: ·) split⟩

theorem splitLine_ends {quoted : Bool} {line : Text} {c : Char} (unbroken : whole quoted line = true)
    (ends : endsLine (quotedAfter quoted line) c = true) (rest : Text) :
    splitLine quoted (line ++ c :: rest) = (line, rest) := by
  induction line generalizing quoted with
  | nil => exact if_pos ends
  | cons d line ih =>
    simp only [whole, Bool.and_eq_true, Bool.not_eq_true'] at unbroken
    simp [splitLine, unbroken.1, ih unbroken.2 ends]

/-- A line that is begun is the whole text, or it is followed by what ends it. -/
theorem Begins.split {text line rest : Text} (begins : Begins text line rest) : Unbroken line ∧
    (text = line ∧ rest = [] ∨ ∃ c, Ends line c ∧ text = line ++ c :: rest) := by
  obtain ⟨unbroken, outcome⟩ := splitLine_cases false text
  rw [begins.2] at unbroken outcome
  refine ⟨unbroken_iff.2 unbroken, ?_⟩
  rcases outcome with all | ⟨c, ends, split⟩
  · cases all
    exact .inl ⟨rfl, rfl⟩
  · exact .inr ⟨c, (endsLine_quotedAfter line c).1 ends, split⟩

theorem nextLine_begins {s : Shell α} {line rest : Text} (begins : Begins s.pending line rest) :
    s.nextLine = (some line, { s with pending := rest }) := by
  obtain ⟨some, split⟩ := begins
  have more : s.pending.isEmpty = false := by simpa using some
  simp [nextLine, more, split]

theorem nextLine_empty {s : Shell α} (empty : s.pending = []) : s.nextLine = (none, s) := by
  simp [nextLine, empty]

theorem Drains.unique {s t u : Shell α} {lines others : List Text} (drains : Drains s lines t) (again : Drains s others u) :
    others = lines ∧ u = t := by
  induction drains generalizing others with
  | none empty =>
    cases again with
    | none other =>
      cases empty.symm.trans other
      exact ⟨rfl, rfl⟩
    | line taken _ => cases empty.symm.trans taken
  | line taken _ ih =>
    cases again with
    | none other => cases taken.symm.trans other
    | line other more =>
      cases taken.symm.trans other
      obtain ⟨rfl, rfl⟩ := ih more
      exact ⟨rfl, rfl⟩

/-- The lines and the characters that ended them are those of the text. -/
structure Lossless (text : Text) (lines : List Text) (ends : List Char) : Prop where
  joined : joined lines ends = text
  counts : ends.length = lines.length ∨ ends.length + 1 = lines.length
  unbroken : ∀ line ∈ lines, Unbroken line
  ends : ∀ pair ∈ lines.zip ends, Ends pair.1 pair.2

theorem Lossless.cons {rest line : Text} {lines : List Text} {ends : List Char} (more : Lossless rest lines ends)
    (unbroken : Unbroken line) {c : Char} (ended : Ends line c) :
    Lossless (line ++ c :: rest) (line :: lines) (c :: ends) where
  joined := by rw [Shell.joined, more.joined]
  counts := by simpa using more.counts
  unbroken := by simpa using ⟨unbroken, more.unbroken⟩
  ends := by simpa using ⟨ended, fun line d => more.ends (line, d)⟩

/-- However the text is made, taking lines until there is none leaves nothing of it, and the lines with what ended
them, one character after each but perhaps the last, are the text again. -/
theorem lines_lossless (s : Shell α) : ∃ lines ends, Drains s lines { s with pending := [] } ∧
    (∀ others t, Drains s others t → others = lines ∧ t = { s with pending := [] }) ∧
    Lossless s.pending lines ends := by
  suffices drained : ∃ lines ends, Drains s lines { s with pending := [] } ∧ Lossless s.pending lines ends by
    obtain ⟨lines, ends, drains, lossless⟩ := drained
    exact ⟨lines, ends, drains, fun others t again => drains.unique again, lossless⟩
  -- every line takes a character at least off the text
  induction size : s.pending.length using Nat.strong_induction_on generalizing s with
  | _ size ih =>
    by_cases empty : s.pending = []
    · have none := nextLine_empty empty
      have same : { s with pending := [] } = s := by rw [← empty]
      have nothing : Lossless s.pending [] [] := by
        rw [empty]
        exact ⟨rfl, .inl rfl, by simp, by simp⟩
      exact ⟨[], [], same.symm ▸ .none none, nothing⟩
    obtain ⟨line, rest, begins⟩ := exists_begins empty
    have taken := nextLine_begins begins
    obtain ⟨unbroken, whole | ⟨c, ended, split⟩⟩ := begins.split
    · obtain ⟨text, rfl⟩ := whole
      refine ⟨[line], [], .line taken (.none (nextLine_empty rfl)), ?_⟩
      exact ⟨by simp [joined, text], .inr rfl, by simpa using unbroken, by simp⟩
    · have less := begins.length_lt
      obtain ⟨lines, ends, drains, lossless⟩ := ih rest.length (size ▸ less) { s with pending := rest } rfl
      exact ⟨line :: lines, c :: ends, .line taken drains, split ▸ lossless.cons unbroken ended⟩

/-- A separator between quotes and one that an open quote hides, and an end of the text without one. -/
example : splitLine false "say \"a;b\";say c\nsay \"d;e".toList =
      ("say \"a;b\"".toList, "say c\nsay \"d;e".toList) ∧
    splitLine false "say \"d;e".toList = ("say \"d;e".toList, []) := by
  decide

end GameHost.Shell
