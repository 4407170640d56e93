import GameHost.Proofs.Shell.SavedAliases

/-!
Archived variables saved as command text, and what is restored of them when the text is run. A value stands between
quotes there, but a quote in the value is not written in any other way, so that the value is restored up to it.
-/
namespace GameHost

/-- The text before the first quote. -/
def Text.beforeQuote (text : Text) : Text := text.takeWhile (· != '"')

theorem Text.beforeQuote_eq_iff {text : Text} : beforeQuote text = text ↔ '"' ∉ text := by
  rw [beforeQuote, List.takeWhile_eq_self_iff]
  constructor
  · intro each member
    simpa using each '"' member
  · intro clean c member
    simp only [bne_iff_ne, ne_eq]
    rintro rfl
    exact clean member

theorem Text.beforeQuote_append (text rest : Text) : beforeQuote (text ++ '"' :: rest) = beforeQuote text := by
  induction text with
  | nil => rfl
  | cons c text ih =>
    unfold beforeQuote at ih ⊢
    rw [List.cons_append, List.takeWhile_cons, List.takeWhile_cons, ih]

theorem Text.size_beforeQuote_le (text : Text) : size (beforeQuote text) ≤ size text := by
  have whole := congrArg size (List.takeWhile_append_dropWhile (p := (· != '"')) (l := text))
  rw [size_append] at whole
  exact Nat.le_of_add_right_le (Nat.le_of_eq whole)

theorem Token.Word.beforeQuote_ne_nil {text : Text} (word : Word text) : Text.beforeQuote text ≠ [] := by
  obtain ⟨nonempty, unquoted, _⟩ := word
  cases text with
  | nil => exact absurd rfl nonempty
  | cons c rest =>
    have other : c ≠ '"' := by simpa using unquoted
    simp [Text.beforeQuote, other]

namespace Shell

/-- The line that sets a variable again. -/
def valueLine (entry : Text × Text) : Text := entry.1 ++ ' ' :: '"' :: (entry.2 ++ ['"'])

variable {α : Type}

/-- The archived variables with their texts. -/
def archive (s : Shell α) : List (Text × Text) :=
  (s.vars.filter (·.2.archived)).map fun entry => (entry.1, entry.2.text)

theorem variableScript_eq (s : Shell α) : s.variableScript = script (s.archive.map valueLine) := by
  unfold variableScript archive
  generalize s.vars = table
  induction table with
  | nil => rfl
  | cons entry rest ih =>
    rw [List.flatMap_cons, ih]
    cases archived : entry.2.archived with
    | false => simp [archived]
    | true => simp [archived, valueLine]

/-- All that is saved, line by line: the archived variables and then the aliases. -/
def savedLines (s : Shell α) : List Text := s.archive.map valueLine ++ s.aliases.map aliasLine

theorem script_savedLines (s : Shell α) : script s.savedLines = s.variableScript ++ s.aliasScript := by
  rw [savedLines, script_append, variableScript_eq, aliasScript_eq]

theorem valueLine_visible (entry : Text × Text) : (Text.trim (valueLine entry)).isEmpty = false :=
  Text.trim_visible (c := '"') (by simp [valueLine]) (by decide)

/-- A variable that a line can set to a text, as far as the line has the text. -/
structure Settable (s : Shell α) (entry : Text × Text) : Prop where
  simple : Token.Simple entry.1
  unlike : NameTable.has s.commands entry.1 = false ∧ NameTable.has s.aliases entry.1 = false
  there : NameTable.has s.vars entry.1 = true
  word : Token.Word entry.2

end Shell

theorem Line.words_value {name value : Text} (simple : Token.Simple name) (word : Token.Word value) :
    ∃ later, (ofText (Shell.valueLine (name, value))).words = name :: Text.beforeQuote value :: later := by
  have shorter := Nat.lt_of_le_of_lt (Text.size_beforeQuote_le value) word.short
  have first : Token.scan (Shell.valueLine (name, value)) = ⟨name, some (' ' :: '"' :: (value ++ ['"']))⟩ :=
    Token.scan_of_simple simple _
  obtain ⟨rest, second⟩ : ∃ rest, Token.scan (' ' :: '"' :: (value ++ ['"'])) = ⟨Text.beforeQuote value, rest⟩ := by
    rw [Token.scan_gap, Token.scan_quote, ← Text.beforeQuote, Text.beforeQuote_append, Token.clip, if_pos shorter]
    exact ⟨_, rfl⟩
  obtain ⟨fuel, enough⟩ : ∃ fuel, (Shell.valueLine (name, value)).length + 1 = fuel + 2 :=
    ⟨(name ++ '"' :: (value ++ ['"'])).length, by simp [Shell.valueLine]; omega⟩
  obtain ⟨more, scans⟩ : ∃ more, Token.scans (Shell.valueLine (name, value)) =
      ⟨name, some (' ' :: '"' :: (value ++ ['"']))⟩ :: ⟨Text.beforeQuote value, rest⟩ :: more := by
    rw [Token.scans, enough, Token.scansWithin_some first (fuel + 1)]
    cases rest with
    | none => exact ⟨[], by rw [Token.scansWithin_none second]⟩
    | some rest => exact ⟨_, by rw [Token.scansWithin_some second fuel]⟩
  have named : name.isEmpty = false := by simpa using simple.nonempty
  have valued : (Text.beforeQuote value).isEmpty = false := by simpa using word.beforeQuote_ne_nil
  unfold ofText
  rw [scans]
  exact ⟨_, by simp [named, valued, wordLimit]; rfl⟩

namespace Shell

variable {α : Type} {s : Shell α}

theorem setVariable_eq (name text : Text) (s : Shell α) : s.setVariable name text =
    { s with
      console := (s.setVariable name text).console
      vars := (s.setVariable name text).vars
      announcements := (s.setVariable name text).announcements } := by
  unfold setVariable
  repeat' split
  all_goals rfl

theorem setVariable_pending (name text waiting : Text) (s : Shell α) :
    setVariable name text { s with pending := waiting } = { s.setVariable name text with pending := waiting } := by
  unfold setVariable
  dsimp only
  repeat' split
  all_goals rfl

theorem useVariable_set {name : Text} {count : Nat} (there : NameTable.has s.vars name = true) (more : count ≠ 1)
    (text : Text) : (s.useVariable name count text).2 = s.setVariable name text := by
  obtain ⟨entry, found⟩ := Option.isSome_iff_exists.1 there
  have alike := NameTable.same_of_find? found
  have spelled : NameTable.find? s.vars entry.1 = some entry := (NameTable.find?_congr alike s.vars).trans found
  have updated : NameTable.update s.vars entry.1 (assign text) = NameTable.update s.vars name (assign text) := by
    unfold NameTable.update
    congr 1
    funext other
    rw [Text.same_comm other.1 entry.1, Text.same_comm other.1 name, Text.same_congr alike]
  have other : (count == 1) = false := by simpa using more
  unfold useVariable setVariable
  rw [found]
  dsimp only
  rw [other, spelled, if_neg Bool.false_ne_true, updated]

theorem has_setVariable (name text other : Text) (s : Shell α) :
    NameTable.has (s.setVariable name text).vars other = NameTable.has s.vars other := by
  unfold setVariable
  split
  · rfl
  · split
    · rfl
    · simp only [NameTable.has, NameTable.find?_update, Option.isSome_map]

theorem variableText_setVariable {name : Text} (there : NameTable.has s.vars name = true) (text other : Text) :
    (s.setVariable name text).variableText other = if Text.same name other then text else s.variableText other := by
  obtain ⟨entry, found⟩ := Option.isSome_iff_exists.1 there
  have spelled (v : Variable) : (assign text v).text = text := rfl
  have told : Text.same name other = true → NameTable.find? s.vars other = some entry := by
    intro alike
    rw [← NameTable.find?_congr alike, found]
  unfold setVariable variableText NameTable.get?
  rw [found]
  dsimp only
  split
  · rename_i same
    split
    · rename_i alike
      rw [told alike]
      exact eq_of_beq same
    · rfl
  · rw [NameTable.find?_update]
    split
    · rename_i alike
      have named : Text.same entry.1 name = true := NameTable.same_of_find? found
      simp [told alike, named, spelled]
    · rename_i unlike
      cases there : NameTable.find? s.vars other with
      | none => rfl
      | some entry =>
        have apart : Text.same entry.1 name = false := by
          rw [Text.same_congr (NameTable.same_of_find? there), Text.same_comm]
          simpa using unlike
        simp [apart]

end Shell

namespace Host
open Shell (whole)

variable {α ω : Type} [Program α ω]

theorem runLine_variable {h : Host α ω} {line name text : Text} {later : List Text} (source : Source)
    (words : (Line.ofText line).words = name :: text :: later) (unlike : NameTable.has h.shell.commands name = false ∧
      NameTable.has h.shell.aliases name = false) (there : NameTable.has h.shell.vars name = true) :
    runLine line source h = .ok () { h with shell := (h.shell.accept line source).setVariable name text } := by
  have noCommand : NameTable.get? h.shell.commands name = none := by
    simpa [NameTable.has, NameTable.get?] using unlike.1
  have noAlias : NameTable.get? h.shell.aliases name = none := by
    simpa [NameTable.has, NameTable.get?] using unlike.2
  have named : meaning (h.shell.accept line source) = .variable := by
    simp [meaning, Shell.accept, words, noCommand, noAlias, there]
  have first : (Line.ofText line).word 0 = name := by rw [Line.word, words]; rfl
  have second : (Line.ofText line).word 1 = text := by rw [Line.word, words]; rfl
  have count : (Line.ofText line).count ≠ 1 := by simp [Line.count, words]
  have used : ((h.shell.accept line source).useVariable ((Line.ofText line).word 0) (Line.ofText line).count
      ((Line.ofText line).word 1)).2 = (h.shell.accept line source).setVariable name text := by
    rw [first, second]
    exact Shell.useVariable_set (s := h.shell.accept line source) there count text
  rw [runLine_eq, named]
  exact congrArg (fun shell => EStateM.Result.ok () (Host.mk shell h.world)) used

theorem leads_value {h : Host α ω} {entry : Text × Text} (settable : h.shell.Settable entry)
    (going : h.shell.paused = false) : Leads (Shell.valueLine entry) h
      { h with shell := (h.shell.accept (Shell.valueLine entry) .player).setVariable entry.1 (Text.beforeQuote entry.2) } := by
  obtain ⟨later, words⟩ := Line.words_value settable.simple settable.word
  constructor
  · rw [Shell.setVariable_eq]
    exact going
  · intro rest
    have ran := runLine_variable (h := h.queue rest) .player words settable.unlike settable.there
    rw [ran]
    exact congrArg (fun shell => EStateM.Result.ok () (Host.mk shell h.world))
      (Shell.setVariable_pending entry.1 _ rest (h.shell.accept (Shell.valueLine entry) .player))

/-- Lines that set variables again go on to a host in which each of these has its text up to the first quote, and no
other has changed. -/
theorem runs_values (entries : List (Text × Text)) {h : Host α ω} (going : h.shell.paused = false)
    (settable : ∀ entry ∈ entries, h.shell.Settable entry) (distinct : Distinct (entries.map Prod.fst))
    (unbroken : ∀ entry ∈ entries, whole false (Shell.valueLine entry) = true) :
    ∃ t : Host α ω, Runs (entries.map Shell.valueLine) h t ∧
      t.shell.paused = false ∧ t.shell.commands = h.shell.commands ∧
      (∀ entry ∈ entries, t.shell.variableText entry.1 = Text.beforeQuote entry.2) ∧
      ∀ name, (∀ entry ∈ entries, Text.same entry.1 name = false) →
        t.shell.variableText name = h.shell.variableText name := by
  induction entries generalizing h with
  | nil => exact ⟨h, .done h, going, rfl, by simp, fun _ _ => rfl⟩
  | cons entry entries ih =>
    have here := settable entry List.mem_cons_self
    have leads := leads_value here going
    obtain ⟨apart, distinct⟩ := List.pairwise_cons.1 distinct
    have texts (name : Text) := Shell.variableText_setVariable (s := h.shell.accept (Shell.valueLine entry) .player)
      here.there (Text.beforeQuote entry.2) name
    have has (name : Text) := Shell.has_setVariable entry.1 (Text.beforeQuote entry.2) name
      (h.shell.accept (Shell.valueLine entry) .player)
    have same := Shell.setVariable_eq entry.1 (Text.beforeQuote entry.2) (h.shell.accept (Shell.valueLine entry) .player)
    generalize (h.shell.accept (Shell.valueLine entry) .player).setVariable entry.1 (Text.beforeQuote entry.2) = shell at *
    have commands : shell.commands = h.shell.commands := by rw [same]; rfl
    have aliases : shell.aliases = h.shell.aliases := by rw [same]; rfl
    have still : ∀ other ∈ entries, shell.Settable other := by
      intro other member
      obtain ⟨simple, unlike, there, word⟩ := settable other (List.mem_cons_of_mem _ member)
      exact ⟨simple, by rwa [commands, aliases], (has other.1).trans there, word⟩
    obtain ⟨t, runs, paused, kept, restored, others⟩ := ih (h := { h with shell }) leads.1 still distinct
      fun other member => unbroken other (List.mem_cons_of_mem _ member)
    refine ⟨t, .line (unbroken entry List.mem_cons_self) (Shell.valueLine_visible entry) leads runs, paused,
      kept.trans commands, ?_, ?_⟩
    · intro other member
      rcases List.mem_cons.1 member with rfl | later
      · have free : ∀ later ∈ entries, Text.same later.1 other.1 = false := by
          intro later member
          rw [Text.same_comm]
          exact apart later.1 (List.mem_map_of_mem member)
        rw [others other.1 free, texts, if_pos (Text.same_iff.2 rfl)]
      · exact restored other later
    · intro name free
      have unlike : ¬Text.same entry.1 name = true := by simpa using free entry List.mem_cons_self
      rw [others name fun other member => free other (List.mem_cons_of_mem _ member), texts, if_neg unlike]
      rfl

/-- Lines of the alias command, whatever they say, change no variable. -/
theorem runs_aliasLines (entries : List (Text × Text)) {h : Host α ω} (going : h.shell.paused = false)
    (known : NameTable.get? h.shell.commands "alias".toList = some (.builtin .alias))
    (unbroken : ∀ entry ∈ entries, whole false (Shell.aliasLine entry) = true) :
    ∃ t : Host α ω, Runs (entries.map Shell.aliasLine) h t ∧ t.shell.vars = h.shell.vars := by
  induction entries generalizing h with
  | nil => exact ⟨h, .done h, rfl⟩
  | cons entry entries ih =>
    obtain ⟨later, words⟩ := Line.words_of_plain Line.plain_alias (entry.1 ++ ' ' :: '"' :: (Text.trimEnd entry.2 ++ ['"']))
    have leads : Leads (Shell.aliasLine entry) h _ := leads_alias words known going
    have same := Shell.runAlias_eq (h.shell.accept (Shell.aliasLine entry) .player)
    generalize (h.shell.accept (Shell.aliasLine entry) .player).runAlias = shell at *
    have commands : shell.commands = h.shell.commands := by rw [same]; rfl
    have vars : shell.vars = h.shell.vars := by rw [same]; rfl
    obtain ⟨t, runs, kept⟩ := ih (h := { h with shell }) leads.1 (by rwa [commands])
      fun other member => unbroken other (List.mem_cons_of_mem _ member)
    exact ⟨t, .line (unbroken entry List.mem_cons_self) (Shell.aliasLine_visible entry) leads runs, kept.trans vars⟩

end Host

end GameHost
