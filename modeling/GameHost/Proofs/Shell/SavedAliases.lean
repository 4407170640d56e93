import GameHost.Proofs.Shell.Namespace
import GameHost.Proofs.Shell.Script
import GameHost.Relay

/-!
Aliases saved as command text come back when the text is run: each line of the text names one alias, whose name
and value the splitter and the scanner leave as they are.
-/
namespace GameHost

/-- The line that sets an alias again. -/
def Shell.aliasLine (entry : Text × Text) : Text :=
  "alias ".toList ++ (entry.1 ++ ' ' :: '"' :: (Text.trimEnd entry.2 ++ ['"']))

theorem Shell.aliasLine_visible (entry : Text × Text) : (Text.trim (aliasLine entry)).isEmpty = false :=
  Text.trim_visible (c := 'a') (List.mem_append_left _ (by decide)) (by decide)

theorem Shell.aliasScript_eq {α : Type} (s : Shell α) : s.aliasScript = script (s.aliases.map aliasLine) := by
  unfold aliasScript script
  rw [List.flatMap_map]
  congr 1
  funext entry
  unfold aliasLine
  simp

namespace Line

theorem plain_alias : Token.PlainName "alias".toList :=
  ⟨⟨'a', "lias".toList, rfl, by decide, by decide⟩, List.all_eq_true.1 (by decide), by decide⟩

theorem scans_alias {name value : Text} (simple : Token.Simple name) (clean : '"' ∉ value)
    (short : Text.size value < Token.lengthLimit) :
    Token.scans ("alias ".toList ++ (name ++ ' ' :: '"' :: (value ++ ['"']))) =
      [⟨"alias".toList, some (' ' :: (name ++ ' ' :: '"' :: (value ++ ['"'])))⟩,
        ⟨name, some (' ' :: '"' :: (value ++ ['"']))⟩, ⟨value, none⟩] := by
  have first := Token.scan_of_plain plain_alias (name ++ ' ' :: '"' :: (value ++ ['"']))
  have second : Token.scan (' ' :: (name ++ ' ' :: '"' :: (value ++ ['"']))) = _ :=
    (Token.scan_gap _).trans (Token.scan_of_simple simple ('"' :: (value ++ ['"'])))
  have third : Token.scan (' ' :: '"' :: (value ++ ['"'])) = ⟨value, none⟩ :=
    (Token.scan_gap _).trans (Token.scan_quoted clean short [])
  obtain ⟨fuel, enough⟩ : ∃ fuel, ("alias ".toList ++ (name ++ ' ' :: '"' :: (value ++ ['"']))).length + 1 = fuel + 3 :=
    ⟨("lias ".toList ++ (name ++ ' ' :: '"' :: value)).length, by simp; omega⟩
  rw [Token.scans, enough]
  refine (Token.scansWithin_some first (fuel + 2)).trans ?_
  rw [Token.scansWithin_some second, Token.scansWithin_none third]

theorem ofText_alias {name value : Text} (simple : Token.Simple name) (clean : '"' ∉ value)
    (short : Text.size value < Token.lengthLimit) :
    (ofText ("alias ".toList ++ (name ++ ' ' :: '"' :: (value ++ ['"'])))).words =
      "alias".toList :: name :: if value.isEmpty then [] else [value] := by
  have nonempty : name.isEmpty = false := by simpa using simple.nonempty
  unfold ofText
  rw [scans_alias simple clean short]
  cases value with
  | nil => simp [nonempty, wordLimit]
  | cons c value => simp [nonempty, wordLimit]

end Line

namespace Shell

variable {α : Type}

/-- The alias command changes nothing but the aliases and what is printed. -/
theorem runAlias_eq (s : Shell α) :
    s.runAlias = { s with console := s.runAlias.console, aliases := s.runAlias.aliases } := by
  unfold runAlias
  split
  · rw [foldl_print]
    rfl
  · unfold setAlias
    repeat' split
    all_goals rfl

/-- What waits to be run does not matter to the alias command. -/
theorem runAlias_pending (s : Shell α) (text : Text) :
    runAlias { s with pending := text } = { s.runAlias with pending := text } := by
  unfold runAlias
  by_cases alone : s.line.count = 1
  · simp only [alone, beq_self_eq_true, if_pos, foldl_print]
    rfl
  · have more : (s.line.count == 1) = false := by simpa using alone
    simp only [more, Bool.false_eq_true, if_false]
    unfold setAlias
    dsimp only
    repeat' split
    all_goals rfl

end Shell

namespace Host

variable {α ω : Type} [Program α ω]

theorem runLine_builtin {h : Host α ω} {line name : Text} {later : List Text} {command : Builtin} (source : Source)
    (words : (Line.ofText line).words = name :: later)
    (known : NameTable.get? h.shell.commands name = some (.builtin command)) :
    runLine line source h = .ok () { h with shell := Shell.runBuiltin command (h.shell.accept line source) } := by
  have named : meaning (h.shell.accept line source) = .command (.builtin command) := meaning_command words known
  rw [runLine_eq, named]
  rfl

/-- Where the alias command has its name, a line of it leads on to what the command does. -/
theorem leads_alias {h : Host α ω} {line : Text} {later : List Text}
    (words : (Line.ofText line).words = "alias".toList :: later)
    (known : NameTable.get? h.shell.commands "alias".toList = some (.builtin .alias))
    (going : h.shell.paused = false) :
    Leads line h { h with shell := (h.shell.accept line .player).runAlias } := by
  constructor
  · rw [Shell.runAlias_eq]
    exact going
  · intro rest
    have ran := runLine_builtin (h := h.queue rest) .player words known
    rw [ran]
    exact congrArg (fun shell => EStateM.Result.ok () (Host.mk shell h.world))
      (Shell.runAlias_pending (h.shell.accept line .player) rest)

end Host

namespace Shell

variable {α : Type}

/-- An alias that can be given on a line of text: a word for a name, which nothing but an alias may have, and a value
that stands between quotes, with a newline after it. -/
structure Restorable (s : Shell α) (entry : Text × Text) : Prop where
  nonempty : entry.1 ≠ []
  chars : ∀ c ∈ entry.1, Token.isWordChar c = true ∧ c ≠ '"' ∧ c ≠ ';'
  uncommented : ¬['/', '/'] <+: entry.1
  short : Text.size entry.1 < aliasNameLimit
  unlike : NameTable.has s.commands entry.1 = false ∧ NameTable.has s.vars entry.1 = false
  value : ∃ text, entry.2 = text ++ ['\n'] ∧ Text.size text < Token.lengthLimit ∧ '"' ∉ text ∧ '\n' ∉ text ∧
    Text.trimEnd text = text

namespace Restorable

variable {s : Shell α} {entry : Text × Text}

theorem of_same {t : Shell α} (good : s.Restorable entry) (commands : t.commands = s.commands)
    (vars : t.vars = s.vars) : t.Restorable entry where
  nonempty := good.nonempty
  chars := good.chars
  uncommented := good.uncommented
  short := good.short
  unlike := by rw [commands, vars]; exact good.unlike
  value := good.value

theorem simple (good : s.Restorable entry) : Token.Simple entry.1 where
  nonempty := good.nonempty
  unquoted := by
    intro quoted
    exact (good.chars '"' (List.mem_of_head? quoted)).2.1 rfl
  uncommented := good.uncommented
  chars c member := (good.chars c member).1
  short := Nat.lt_trans good.short (by decide)

/-- The value without the newline, as it is saved. -/
theorem kept (good : s.Restorable entry) :
    entry.2 = Text.trimEnd entry.2 ++ ['\n'] ∧ Text.size (Text.trimEnd entry.2) < Token.lengthLimit ∧
      '"' ∉ Text.trimEnd entry.2 ∧ '\n' ∉ Text.trimEnd entry.2 := by
  obtain ⟨text, same, short, unquoted, oneLine, trimmed⟩ := good.value
  have stripped : Text.trimEnd entry.2 = text := by
    rw [same]
    unfold Text.trimEnd at trimmed ⊢
    rw [List.reverse_append, List.reverse_singleton, List.singleton_append, List.dropWhile_cons_of_pos (by decide)]
    exact trimmed
  rw [stripped]
  exact ⟨same, short, unquoted, oneLine⟩

theorem whole_line (good : s.Restorable entry) : whole false (aliasLine entry) = true := by
  obtain ⟨-, -, unquoted, oneLine⟩ := good.kept
  have start : Inert false "alias ".toList := by decide
  have name : Inert false entry.1 := by
    intro c member
    obtain ⟨wordChar, unquoted, unseparated⟩ := good.chars c member
    refine ⟨?_, unquoted⟩
    have other : c ≠ '\n' := fun same => absurd (same ▸ wordChar) (by decide)
    simp [endsLine, other, unseparated]
  have value : Inert true (Text.trimEnd entry.2) := by
    intro c member
    have other : c ≠ '\n' := fun same => oneLine (same ▸ member)
    exact ⟨by simp [endsLine, other], fun same => unquoted (same ▸ member)⟩
  unfold aliasLine
  rw [whole_append start, whole_append name]
  exact (whole_append value ['"']).trans (by decide)

theorem words (good : s.Restorable entry) : (Line.ofText (aliasLine entry)).words =
    "alias".toList :: entry.1 :: if (Text.trimEnd entry.2).isEmpty then [] else [Text.trimEnd entry.2] :=
  Line.ofText_alias good.simple good.kept.2.2.1 good.kept.2.1

theorem runAlias_accept (good : s.Restorable entry) (new : NameTable.has s.aliases entry.1 = false) :
    (s.accept (aliasLine entry) .player).runAlias =
      { s with aliases := s.aliases ++ [entry], line := Line.ofText (aliasLine entry), source := .player } := by
  have value := good.kept.1
  have words := good.words
  have name : (Line.ofText (aliasLine entry)).word 1 = entry.1 := by rw [Line.word, words]; rfl
  have rest : (Line.ofText (aliasLine entry)).wordsFrom 2 = Text.trimEnd entry.2 := by
    rw [Line.wordsFrom, words]
    cases Text.trimEnd entry.2 <;> simp [Text.spaced]
  have count : ((Line.ofText (aliasLine entry)).count == 1) = false := by
    rw [Line.count, words]
    cases Text.trimEnd entry.2 <;> rfl
  have long : ¬aliasNameLimit ≤ Text.size entry.1 := Nat.not_le.2 good.short
  unfold runAlias accept
  dsimp only
  rw [count, name, rest, if_neg Bool.false_ne_true]
  simp only [setAlias, good.unlike.1, good.unlike.2, new, Bool.false_eq_true, if_false, if_neg long]
  rw [NameTable.add, ← show entry.2 = Text.trimEnd entry.2 ++ "\n".toList from value]

end Restorable

end Shell

namespace Host

variable {α ω : Type} [Program α ω]

theorem runs_aliases (entries : NameTable Text) {h : Host α ω}
    (known : NameTable.get? h.shell.commands "alias".toList = some (.builtin .alias))
    (going : h.shell.paused = false) (good : ∀ entry ∈ entries, h.shell.Restorable entry)
    (new : ∀ entry ∈ entries, NameTable.has h.shell.aliases entry.1 = false)
    (distinct : Distinct (NameTable.names entries)) :
    ∃ line source, Runs (entries.map Shell.aliasLine) h
      { h with shell := { h.shell with aliases := h.shell.aliases ++ entries, line, source } } := by
  induction entries generalizing h with
  | nil =>
    refine ⟨h.shell.line, h.shell.source, ?_⟩
    rw [List.append_nil]
    exact .done h
  | cons entry entries ih =>
    have here := good entry List.mem_cons_self
    have leads := leads_alias here.words known going
    have wordy : (Text.trim (Shell.aliasLine entry)).isEmpty = false := Shell.aliasLine_visible entry
    obtain ⟨apart, distinct⟩ := List.pairwise_cons.1 distinct
    rw [here.runAlias_accept (new entry List.mem_cons_self)] at leads
    have later : ∀ other ∈ entries, NameTable.has (h.shell.aliases ++ [entry]) other.1 = false := by
      intro other member
      have added := NameTable.has_add h.shell.aliases entry.1 other.1 entry.2
      rw [new other (List.mem_cons_of_mem _ member), apart other.1 (List.mem_map_of_mem member)] at added
      exact added
    let shell : Shell α :=
      { h.shell with
        aliases := h.shell.aliases ++ [entry]
        line := Line.ofText (Shell.aliasLine entry)
        source := .player }
    obtain ⟨line, source, more⟩ := ih (h := { h with shell }) known going
      (fun other member => (good other (List.mem_cons_of_mem _ member)).of_same rfl rfl) later distinct
    refine ⟨line, source, .line here.whole_line wordy leads ?_⟩
    simpa [shell] using more

/-- Aliases that can be given on a line of text come back when the lines that were saved are run, with their names,
their values and in their order. -/
theorem aliases_restored {saved : Shell α} {fresh : Host α ω} (commands : fresh.shell.commands = saved.commands)
    (vars : fresh.shell.vars = saved.vars) (none : fresh.shell.aliases = []) (idle : fresh.shell.pending = [])
    (going : fresh.shell.paused = false)
    (known : NameTable.get? saved.commands "alias".toList = some (.builtin .alias))
    (distinct : Distinct (NameTable.names saved.aliases)) (good : ∀ entry ∈ saved.aliases, saved.Restorable entry)
    (fits : Text.size saved.aliasScript < Shell.pendingLimit) :
    ∃ h, (onShell (Shell.insertText saved.aliasScript) >>= fun _ => tick) fresh = .ok () h ∧
      h.shell.aliases = saved.aliases ∧ h.shell.pending = [] := by
  have script := saved.aliasScript_eq
  obtain ⟨line, source, runs⟩ := runs_aliases saved.aliases
    (h := { fresh with shell := { fresh.shell with expansions := 0 } }) (by rw [← known, ← commands]) going
    (fun entry member => (good entry member).of_same commands vars)
    (fun entry _ => by rw [show _ = _ from none]; rfl) distinct
  have room : fresh.shell.hasRoom saved.aliasScript = true := by
    rw [Shell.hasRoom, idle]
    simpa using fits
  have queued : onShell (Shell.insertText saved.aliasScript) fresh =
      .ok () (fresh.queue (Shell.script (saved.aliases.map Shell.aliasLine))) := by
    rw [onShell_insertText room, idle, List.append_nil, script]
  refine ⟨_, (Act.bind_of_ok queued).trans (tick_script runs ?_), ?_, rfl⟩
  · rwa [← script]
  · change fresh.shell.aliases ++ saved.aliases = saved.aliases
    rw [none, List.nil_append]

/-- Separators, comment marks and nothing at all between the quotes. -/
def threeAliases : NameTable Text :=
  [("both", "echo one; echo two\n"), ("/half", "// said  twice\n"), ("nothing", "\n")]

def plainShell : Shell Empty := Shell.registerStandard (Shell.empty Console.empty)

theorem three_aliases_restored : ∃ h : Host Empty Relay,
    (onShell (Shell.insertText (Shell.aliasScript { plainShell with aliases := threeAliases })) >>= fun _ => tick)
        ⟨plainShell, Relay.detached⟩ = .ok () h ∧
      h.shell.aliases = threeAliases ∧ h.shell.pending = [] := by
  refine @aliases_restored _ _ _ { plainShell with aliases := threeAliases } _ rfl rfl rfl rfl rfl (by decide)
    (by unfold Distinct; decide) ?_ (by decide)
  intro entry member
  have chars : ∀ c ∈ entry.1, Token.isWordChar c = true ∧ c ≠ '"' ∧ c ≠ ';' := by
    revert entry
    simp [threeAliases, Token.isWordChar, Token.isGap, Token.isPunctuation]
  rcases List.mem_cons.1 member with rfl | member
  · exact ⟨by decide, chars, by decide, by decide, by decide, "echo one; echo two".toList, rfl, by decide, by decide,
      by decide, by decide⟩
  rcases List.mem_cons.1 member with rfl | member
  · exact ⟨by decide, chars, by decide, by decide, by decide, "// said  twice".toList, rfl, by decide, by decide,
      by decide, by decide⟩
  cases List.mem_singleton.1 member
  exact ⟨by decide, chars, by decide, by decide, by decide, [], rfl, by decide, by decide, by decide, by decide⟩

end Host

end GameHost
