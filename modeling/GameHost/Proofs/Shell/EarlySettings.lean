import GameHost.Proofs.Shell.LateCommands
import GameHost.Proofs.Shell.SavedVariables

/-!
The settings among the program's arguments, run as the lines that they are made into. Where each line is read as the
setting that it was made of, every variable has afterwards what the last setting of it says, and nothing else is
different.
-/
namespace GameHost

/-- A plain word is scanned as it stands at the end of a text, too. -/
theorem Token.scan_of_simple_end {word : Text} (simple : Simple word) : scan word = ⟨word, none⟩ := by
  obtain ⟨⟨nonempty, unquoted, short⟩, uncommented, chars⟩ := simple
  have taken : word.takeWhile isWordChar = word := List.takeWhile_eq_self_iff.2 chars
  have dropped : word.dropWhile isWordChar = [] := List.dropWhile_eq_nil_iff.2 chars
  cases word with
  | nil => exact absurd rfl nonempty
  | cons c more =>
    obtain ⟨gap, punctuation⟩ := isGap_of_wordChar (chars c List.mem_cons_self)
    have open' : (c == '/' && more.head? == some '/') = false := by
      cases more with
      | nil => simp
      | cons d more =>
        refine Bool.eq_false_iff.2 fun both => uncommented ?_
        simp only [List.head?_cons, Bool.and_eq_true, beq_iff_eq, Option.some.injEq] at both
        obtain ⟨rfl, rfl⟩ := both
        exact List.prefix_append ['/', '/'] more
    have skipped : skip false (c :: more) = c :: more := by
      rw [skip, gap, open']
      rfl
    have whole : clip (c :: more) = c :: more := if_pos short
    rw [scan, skipped]
    simp [show c ≠ '"' by simpa using unquoted, punctuation, taken, dropped, whole, left]

namespace Arguments
open GameHost.Shell (whole script endsLine Inert)

/-- The line that a setting is made into. -/
def settingLine (setting : Text × Text) : Text := setName ++ ' ' :: (setting.1 ++ ' ' :: setting.2)

/-- What there is of a setting that the arguments end within. -/
def cutOff : List Text → List (Text × Text)
  | [] => []
  | first :: rest =>
    if first == marker then
      match rest with
      | [] => [([], [])]
      | [name] => [(name, [])]
      | _ :: _ :: later => cutOff later
    else cutOff rest

/-- The text of a variable after some settings. -/
def settled (settings : List (Text × Text)) (name old : Text) : Text :=
  settings.foldl (fun text setting => if Text.same setting.1 name then setting.2 else text) old

/-- The lines of the settings are read as they were meant: one that was taken is a line with the three words of the
setting, and one that is cut off is a line that sets nothing. -/
structure Legible (args : List Text) : Prop where
  taken : ∀ setting ∈ taken args, whole false (settingLine setting) = true ∧
    (Line.ofText (settingLine setting)).words = [setName, setting.1, setting.2]
  cutOff : ∀ setting ∈ cutOff args, whole false (settingLine setting) = true ∧
    (Line.ofText (settingLine setting)).count ≠ 3

theorem takeSettings_lines (args : List Text) :
    (takeSettings args).1 = (taken args ++ cutOff args).map fun setting => settingLine setting ++ ['\n'] := by
  induction args using settings_induction with
  | nil | cut => rfl
  | short name => simp [takeSettings, taken, cutOff, settingLine, setName, marker]
  | setting name value later ih => simp [takeSettings, taken, cutOff, ih, settingLine, setName, marker]
  | other first rest unlike ih =>
    have other : ¬(first == marker) = true := by simpa using unlike
    have settings : taken (first :: rest) = taken rest := by
      rw [taken.eq_def]
      exact if_neg other
    have partly : cutOff (first :: rest) = cutOff rest := by
      rw [cutOff.eq_def]
      exact if_neg other
    rw [takeSettings_other unlike, settings, partly, ih]

theorem settings_eq (args : Arguments) :
    args.settings = ((takeSettings (args.drop 1)).1, args.take 1 ++ kept (args.drop 1)) := by
  cases args <;> rfl

theorem flatten_settings (args : Arguments) : args.settings.1.flatten =
    script ((taken (args.drop 1) ++ cutOff (args.drop 1)).map settingLine) := by
  rw [settings_eq, takeSettings_lines, script, List.flatMap_map]
  rfl

theorem drop_settings (args : Arguments) : args.settings.2.drop 1 = kept (args.drop 1) := by
  cases args <;> rfl

theorem settled_append (before after : List (Text × Text)) (name old : Text) :
    settled (before ++ after) name old = settled after name (settled before name old) :=
  List.foldl_append

theorem settled_of_unset {settings : List (Text × Text)} {name : Text}
    (unset : ∀ setting ∈ settings, Text.same setting.1 name = false) (old : Text) : settled settings name old = old := by
  induction settings with
  | nil => rfl
  | cons setting settings ih =>
    have other : ¬Text.same setting.1 name = true := by simp [unset setting List.mem_cons_self]
    unfold settled at ih ⊢
    rw [List.foldl_cons, if_neg other]
    exact ih fun later member => unset later (List.mem_cons_of_mem _ member)

/-- The last setting of a variable decides. -/
theorem settled_of_last {before after : List (Text × Text)} {name value : Text}
    (last : ∀ later ∈ after, Text.same later.1 name = false) (old : Text) :
    settled (before ++ (name, value) :: after) name old = value := by
  rw [settled_append, ← List.singleton_append, settled_append, settled_of_unset last]
  exact if_pos (Text.same_iff.2 rfl)

theorem plain_setName : Token.PlainName setName :=
  ⟨⟨'s', ['e', 't'], rfl, by decide, by decide⟩, List.all_eq_true.1 (by decide), by decide⟩

/-- Plain words, in which no line ends and no quote opens, are read as they stand. -/
theorem legible_of_simple {name value : Text} (simple : Token.Simple name ∧ Token.Simple value)
    (inert : Inert false name ∧ Inert false value) : whole false (settingLine (name, value)) = true ∧
      (Line.ofText (settingLine (name, value))).words = [setName, name, value] := by
  have line : settingLine (name, value) = setName ++ ' ' :: (name ++ ' ' :: value) := rfl
  constructor
  · have all : Inert false (settingLine (name, value)) := by
      have letters : Inert false setName := by decide
      have space : endsLine false ' ' = false ∧ ' ' ≠ '"' := by decide
      intro c member
      simp only [line, List.mem_append, List.mem_cons] at member
      rcases member with first | rfl | second | rfl | third
      · exact letters c first
      · exact space
      · exact inert.1 c second
      · exact space
      · exact inert.2 c third
    have unbroken := Shell.whole_append all []
    rwa [List.append_nil] at unbroken
  · have first := Token.scan_of_plain plain_setName (name ++ ' ' :: value)
    have second := (Token.scan_gap (name ++ ' ' :: value)).trans (Token.scan_of_simple simple.1 value)
    have third := (Token.scan_gap value).trans (Token.scan_of_simple_end simple.2)
    obtain ⟨fuel, enough⟩ : ∃ fuel, (settingLine (name, value)).length + 1 = fuel + 3 :=
      ⟨(name ++ ' ' :: value).length + 2, by simp [line, setName]⟩
    have scans : Token.scans (settingLine (name, value)) =
        [⟨setName, some (' ' :: (name ++ ' ' :: value))⟩, ⟨name, some (' ' :: value)⟩, ⟨value, none⟩] := by
      rw [Token.scans, enough, line, Token.scansWithin_some first, Token.scansWithin_some second,
        Token.scansWithin_none third]
    have named : name.isEmpty = false := by simpa using simple.1.nonempty
    have valued : value.isEmpty = false := by simpa using simple.2.nonempty
    unfold Line.ofText
    rw [scans]
    simp [named, valued, setName, Line.wordLimit]

end Arguments

namespace Shell
open Arguments (settingLine settled setName)

variable {α : Type}

/-- Setting a variable by the line of it. -/
def enact (setting : Text × Text) (s : Shell α) : Shell α := (s.accept (settingLine setting) .player).runSet

def enactAll (settings : List (Text × Text)) (s : Shell α) : Shell α :=
  settings.foldl (fun s setting => s.enact setting) s

theorem runSet_eq (s : Shell α) : s.runSet =
    { s with console := s.runSet.console, vars := s.runSet.vars, announcements := s.runSet.announcements } := by
  unfold runSet
  split
  · rfl
  · exact setVariable_eq ..

theorem runSet_pending (waiting : Text) (s : Shell α) :
    runSet { s with pending := waiting } = { s.runSet with pending := waiting } := by
  unfold runSet
  dsimp only
  split
  · rfl
  · exact setVariable_pending ..

theorem variableText_setVariable_other {s : Shell α} {name other : Text} (unlike : Text.same name other = false)
    (text : Text) : (s.setVariable name text).variableText other = s.variableText other := by
  by_cases there : NameTable.has s.vars name = true
  · rw [variableText_setVariable there, if_neg (by simp [unlike])]
  · have none : NameTable.find? s.vars name = none := by simpa [NameTable.has] using there
    unfold setVariable
    rw [none]
    rfl

/-- What a setting changes besides the variables and what is told of them: the line that was run. -/
theorem enact_eq (setting : Text × Text) (s : Shell α) : s.enact setting =
    { s with
      console := (s.enact setting).console
      line := (s.enact setting).line
      source := (s.enact setting).source
      vars := (s.enact setting).vars
      announcements := (s.enact setting).announcements } := by
  unfold enact
  rw [runSet_eq]
  rfl

/-- What no setting changes. -/
def unaffected (s : Shell α) : Text × Bool × Nat × NameTable Text × NameTable (Action α) × Arguments :=
  (s.pending, s.paused, s.expansions, s.aliases, s.commands, s.arguments)

theorem unaffected_enactAll (settings : List (Text × Text)) (s : Shell α) :
    (s.enactAll settings).unaffected = s.unaffected := by
  induction settings generalizing s with
  | nil => rfl
  | cons setting settings ih =>
    refine (ih (s.enact setting)).trans ?_
    rw [enact_eq]
    rfl

theorem has_enact (setting : Text × Text) (name : Text) (s : Shell α) :
    NameTable.has (s.enact setting).vars name = NameTable.has s.vars name := by
  unfold enact runSet
  split
  · rfl
  · exact has_setVariable ..

theorem variableText_enact {setting : Text × Text} {s : Shell α}
    (read : (Line.ofText (settingLine setting)).words = [setName, setting.1, setting.2]) {name : Text}
    (there : NameTable.has s.vars name = true) :
    (s.enact setting).variableText name = if Text.same setting.1 name then setting.2 else s.variableText name := by
  have set : s.enact setting = (s.accept (settingLine setting) .player).setVariable setting.1 setting.2 := by
    unfold enact runSet accept Line.count Line.word
    rw [read]
    rfl
  rw [set]
  cases same : Text.same setting.1 name with
  | true =>
    have named : NameTable.has s.vars setting.1 = true := by
      rw [NameTable.has, NameTable.find?_congr same]
      exact there
    rw [variableText_setVariable (s := s.accept (settingLine setting) .player) named, same]
    rfl
  | false =>
    rw [variableText_setVariable_other same]
    rfl

theorem vars_enact_cutOff {setting : Text × Text} (short : (Line.ofText (settingLine setting)).count ≠ 3) (s : Shell α) :
    (s.enact setting).vars = s.vars := by
  have count : ((s.accept (settingLine setting) .player).line.count != 3) = true := by simpa [accept] using short
  unfold enact runSet
  rw [if_pos count]
  rfl

theorem variableText_enactAll {settings : List (Text × Text)} {s : Shell α}
    (read : ∀ setting ∈ settings, (Line.ofText (settingLine setting)).words = [setName, setting.1, setting.2])
    {name : Text} (there : NameTable.has s.vars name = true) :
    (s.enactAll settings).variableText name = settled settings name (s.variableText name) := by
  induction settings generalizing s with
  | nil => rfl
  | cons setting settings ih =>
    have first := variableText_enact (read setting List.mem_cons_self) there
    have later := ih (s := s.enact setting) (fun other member => read other (List.mem_cons_of_mem _ member))
      ((has_enact setting name s).trans there)
    change ((s.enact setting).enactAll settings).variableText name = _
    rw [later, first]
    rfl

theorem vars_enactAll_cutOff {settings : List (Text × Text)}
    (short : ∀ setting ∈ settings, (Line.ofText (settingLine setting)).count ≠ 3) (s : Shell α) :
    (s.enactAll settings).vars = s.vars := by
  induction settings generalizing s with
  | nil => rfl
  | cons setting settings ih =>
    exact (ih (fun other member => short other (List.mem_cons_of_mem _ member)) (s.enact setting)).trans
      (vars_enact_cutOff (short setting List.mem_cons_self) s)

theorem foldl_addText {texts : List Text} {s : Shell α}
    (fits : Text.size s.pending + Text.size texts.flatten < pendingLimit) :
    texts.foldl (fun s text => s.addText text) s = { s with pending := s.pending ++ texts.flatten } := by
  induction texts generalizing s with
  | nil => simp
  | cons text texts ih =>
    rw [List.flatten_cons, Text.size_append] at fits
    have room : s.hasRoom text = true := by
      simp only [hasRoom, decide_eq_true_eq]
      omega
    have added : s.addText text = { s with pending := s.pending ++ text } := if_pos room
    rw [List.foldl_cons, added, ih (by rw [Text.size_append]; omega)]
    simp

/-- Alone in the text, the line that asks for the commands among the arguments leaves them as the text. -/
theorem runArguments_alone {s : Shell α} (alone : s.line.count = 1) (idle : s.pending = [])
    (fits : Text.size s.arguments.commands < pendingLimit) :
    s.runArguments = { s with pending := s.arguments.commands } := by
  have room : s.hasRoom s.arguments.commands = true := by
    simp only [hasRoom, idle, Text.size_nil, Nat.zero_add, decide_eq_true_eq]
    exact fits
  have queued : s.insertText s.arguments.commands = { s with pending := s.arguments.commands } := by
    rw [insertText, if_pos room, idle, List.append_nil]
  unfold runArguments
  rw [if_neg (by simp [alone])]
  dsimp only
  rw [queued]
  split
  · rename_i none
    rw [List.isEmpty_iff.1 none, ← idle]
  · rfl

end Shell

namespace Host
open Shell (whole script)
open Arguments (settingLine setName)

variable {α ω : Type} [Program α ω]

theorem leads_setting {h : Host α ω} (known : NameTable.get? h.shell.commands setName = some (.builtin .setVariable))
    (going : h.shell.paused = false) (setting : Text × Text) :
    Leads (settingLine setting) h { h with shell := h.shell.enact setting } := by
  obtain ⟨later, words⟩ := Line.words_of_plain Arguments.plain_setName (setting.1 ++ ' ' :: setting.2)
  constructor
  · rw [Shell.enact_eq]
    exact going
  · intro rest
    have ran := runLine_builtin (h := h.queue rest) .player words known
    rw [settingLine, ran]
    exact congrArg (fun shell => EStateM.Result.ok () (Host.mk shell h.world))
      (Shell.runSet_pending rest (h.shell.accept (settingLine setting) .player))

theorem runs_settings {settings : List (Text × Text)} {h : Host α ω}
    (known : NameTable.get? h.shell.commands setName = some (.builtin .setVariable)) (going : h.shell.paused = false)
    (unbroken : ∀ setting ∈ settings, whole false (settingLine setting) = true) :
    Runs (settings.map settingLine) h { h with shell := h.shell.enactAll settings } := by
  induction settings generalizing h with
  | nil => exact .done h
  | cons setting settings ih =>
    have leads := leads_setting known going setting
    have still : NameTable.get? (h.shell.enact setting).commands setName = some (.builtin .setVariable) := by
      rw [Shell.enact_eq]
      exact known
    have visible : (Text.trim (settingLine setting)).isEmpty = false :=
      Text.trim_visible (c := 's') (by simp [settingLine, setName]) (by decide)
    exact .line (unbroken setting List.mem_cons_self) visible leads
      (ih still leads.1 fun other member => unbroken other (List.mem_cons_of_mem _ member))

end Host

end GameHost
