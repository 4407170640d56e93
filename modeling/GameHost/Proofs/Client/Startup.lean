import GameHost.Proofs.Client.Remote
import GameHost.Proofs.Client.Settings
import GameHost.Proofs.Shell.EarlySettings

/-!
What the program's arguments come to: the settings among them are made first, and the other commands run later, from
what is left of the arguments. Each setting is made once, and what it set stays unless a later line sets it again. The
later lines are those of the other commands exactly if taking out the settings has left these as they were.
-/
namespace GameHost.Client
open GameHost.Arguments (Legible apart commandGroups cutOff groupLine others settled settingLine taken)
open GameHost.Host (queue begun round)
open GameHost.Shell (Begins script)

/-- Queue the settings among the arguments and run them. -/
def enactSettings (args : Arguments) : Act Session Unit := do
  Host.onShell fun s => args.settings.1.foldl (fun s line => s.addText line) s
  Host.tick

/-- The session that is left with the other arguments, and is to run the commands among them. -/
def awaiting (args : Arguments) (s : Session) : Session :=
  { s with shell := Shell.addText "stuffcmds\n" { s.shell with arguments := args.settings.2 } }

/-- Whether the line that is run gives the variable of that name a text. To record a map a line is run that begins with
that word. -/
def writes (s : Shell ClientCommand) (name : Text) : Bool :=
  match Host.meaning s with
  | .variable => s.line.count != 1 && Text.same (s.line.word 0) name
  | .command (.builtin .setVariable) => s.line.count == 3 && Text.same (s.line.word 1) name
  | .command (.own .record) => decide (2 < s.line.count) && Text.same "map" name
  | _ => false

section

variable {s : Session} {name : Text}

/-- The variable has the same text after the action, however it ends. -/
def Unwritten (name : Text) (s : Session) (act : Act Session Unit) : Prop :=
  (Act.final (act s)).shell.variableText name = s.shell.variableText name

namespace Unwritten

theorem of_unset {act : Act Session Unit} (unset : Unset act) : Unwritten name s act :=
  congrArg (fun settings : Settings => (NameTable.get? settings.vars name).elim [] Variable.text) (unset s)

theorem runSet (unwritten : (s.shell.line.count == 3 && Text.same (s.shell.line.word 1) name) = false) :
    Unwritten name s (Host.onShell Shell.runSet : Act Session Unit) := by
  change s.shell.runSet.variableText name = s.shell.variableText name
  unfold Shell.runSet
  split
  · rfl
  · rename_i three
    have three : s.shell.line.count = 3 := by simpa using three
    exact Shell.variableText_setVariable_other (by simpa [three] using unwritten) _

theorem useVariable (unwritten : (s.shell.line.count != 1 && Text.same (s.shell.line.word 0) name) = false) :
    Unwritten name s (Host.onShell fun s => (s.useVariable (s.line.word 0) s.line.count (s.line.word 1)).2) := by
  change ((s.shell.useVariable (s.shell.line.word 0) s.shell.line.count (s.shell.line.word 1)).2).variableText name = _
  by_cases alone : s.shell.line.count = 1
  · unfold Shell.useVariable
    rw [alone]
    split <;> rfl
  · by_cases there : NameTable.has s.shell.vars (s.shell.line.word 0) = true
    · rw [Shell.useVariable_set there alone]
      exact Shell.variableText_setVariable_other (by simpa [alone] using unwritten) _
    · have none : NameTable.find? s.shell.vars (s.shell.line.word 0) = none := by simpa [NameTable.has] using there
      unfold Shell.useVariable
      rw [none]

theorem line_bind {next : Line → Act Session Unit} (there : Unwritten name s (next s.shell.line)) :
    Unwritten name s (line >>= next) := there

theorem ask_bind {next : Client → Act Session Unit} (there : Unwritten name s (next s.world)) :
    Unwritten name s (ask >>= next) := there

/-- The line that starts a map writes no variable but one of the name `map`. -/
theorem map (ready : Ready s) (unlike : Text.same "map" name = false) (depth : Nat) (word : Text) :
    Unwritten name s (Host.runLineWithin depth ("map " ++ word) .player) := by
  cases depth with
  | zero => exact of_unset (.throw _)
  | succ depth =>
    have first : (Line.ofText ("map " ++ word)).word 0 = "map".toList := by
      obtain ⟨later, words⟩ := Line.words_of_plain plain_map word
      rw [show "map " ++ word = "map".toList ++ ' ' :: word from rfl, Line.word, words]
      rfl
    let m : Session := { s with shell := s.shell.accept ("map " ++ word) .player }
    rw [Unwritten, Host.runLineWithin_succ]
    rcases named : Host.meaning (s.shell.accept ("map " ++ word) .player) with _ | action | value | _ | _
    · rfl
    · exact absurd named (map_names_no_command word ready action)
    · exact of_unset (s := m) (.expand value)
    · refine useVariable (s := m) ?_
      change (_ && Text.same ((Line.ofText ("map " ++ word)).word 0) name) = false
      rw [first, unlike, Bool.and_false]
    · exact of_unset (s := m) .runUnknown

theorem record {run : Text → Source → Act Session Unit} (ready : Ready s)
    (maps : Text.same "map" name = false → ∀ word m, Ready m → Unwritten name m (run ("map " ++ word) .player))
    (unwritten : (decide (2 < s.shell.line.count) && Text.same "map" name) = false) :
    Unwritten name s (record run) := by
  have begins {m : Session} (known : Ready m) (path : Path) : Unwritten name m (if 2 < s.shell.line.count then (do
      run ("map " ++ s.shell.line.word 2) .player
      Client.beginRecording path (trackAsked s.shell.line))
      else Client.beginRecording path (trackAsked s.shell.line)) := by
    split
    · rename_i named
      have ran := maps (by simpa [named] using unwritten) (s.shell.line.word 2) m known
      unfold Unwritten at ran ⊢
      rw [← ran]
      cases outcome : run ("map " ++ s.shell.line.word 2) .player m with
      | ok _ t =>
        rw [Act.bind_of_ok outcome]
        exact of_unset (s := t) (.of_beside (.beginRecording _ _))
      | error fault t => rw [Act.bind_of_error outcome]
    · exact of_unset (.of_beside (.beginRecording _ _))
  unfold Client.record
  refine line_bind (ask_bind ?_)
  split
  · exact of_unset (.print _)
  · dsimp only
    split
    · exact begins (m := { s with shell := s.shell.print _ }) ready _
    · exact begins ready _

theorem runAction {action : Action ClientCommand} (ready : Ready s) (means : Host.meaning s.shell = .command action)
    (unwritten : writes s.shell name = false) (depth : Nat) :
    Unwritten name s (Host.runAction (Host.runLineWithin depth) action) := by
  unfold writes at unwritten
  rw [means] at unwritten
  cases action with
  | builtin command =>
    by_cases set : command = .setVariable
    · subst set
      exact runSet unwritten
    · exact of_unset (.runBuiltin set)
  | script => exact of_unset .runScript
  | forward => exact of_unset .forwardLine
  | probe kind => exact absurd rfl (not_probe_of_meaning ready means kind)
  | own command =>
    by_cases recorded : command = .record
    · subst recorded
      refine (?_ : Unwritten name s (if s.shell.source == .player then Client.record _ else pure ()))
      split
      · exact record ready (fun unlike word m ready => map ready unlike depth word) unwritten
      · exact of_unset (.pure _)
    · exact of_unset (.perform recorded)

theorem runLine (ready : Ready s) (text : Text) (unwritten : writes (s.shell.accept text .player) name = false) :
    Unwritten name s (Host.runLine text .player) := by
  let m : Session := { s with shell := s.shell.accept text .player }
  have known : Ready m := ready
  rw [Unwritten, Host.runLine_eq]
  rcases named : Host.meaning (s.shell.accept text .player) with _ | action | value | _ | _
  · rfl
  · exact runAction (s := m) known named unwritten _
  · exact of_unset (s := m) (.expand value)
  · rw [writes, named] at unwritten
    exact useVariable (s := m) unwritten
  · exact of_unset (s := m) .runUnknown

end Unwritten

theorem Comes.ready {line : Text} {m : Session} (comes : Comes s line m) (ready : Ready s) : Ready m := by
  induction comes with
  | here _ _ => exact ready
  | later ran _ ih => exact ih (ready_round ready ran)

/-- A variable that no line of a call writes has the same text after the call. -/
theorem variableText_tick (ready : Ready s)
    (unwritten : ∀ m line, Comes s.begun line m → writes (m.shell.accept line .player) name = false) :
    (Act.final (Host.tick s)).shell.variableText name = s.shell.variableText name := by
  have carried : Carried fun s t : Session => t.shell.variableText name = s.shell.variableText name :=
    ⟨fun _ => rfl, fun first second => second.trans first, fun _ _ => rfl, fun _ => rfl, fun _ => rfl⟩
  have known : Ready s.begun := ready
  exact carried.tick fun m line comes => Unwritten.runLine (comes.ready known) line (unwritten m line comes)

/-- The settings that are taken are made, in their order, and nothing else is done. -/
theorem enactSettings_legible {args : Arguments} (ready : Ready s) (idle : s.shell.pending = [])
    (going : s.shell.paused = false) (legible : Legible (args.drop 1))
    (fits : Text.size args.settings.1.flatten < Shell.pendingLimit) :
    ∃ t, enactSettings args s = .ok () t ∧ Ready t ∧ t.shell.pending = [] ∧ t.shell.paused = false ∧
      t.shell.aliases = s.shell.aliases ∧ t.world = s.world ∧
      ∀ name, NameTable.has s.shell.vars name = true →
        t.shell.variableText name = settled (taken (args.drop 1)) name (s.shell.variableText name) := by
  let lines := (taken (args.drop 1) ++ cutOff (args.drop 1)).map settingLine
  have known : NameTable.get? s.begun.shell.commands Arguments.setName = some (.builtin .setVariable) := by
    rw [show s.begun.shell.commands = commandTable from ready]
    decide
  have unbroken : ∀ setting ∈ taken (args.drop 1) ++ cutOff (args.drop 1),
      Shell.whole false (settingLine setting) = true := by
    intro setting member
    rcases List.mem_append.1 member with full | short
    · exact (legible.taken setting full).1
    · exact (legible.cutOff setting short).1
  have runs := Host.runs_settings (h := s.begun) known going unbroken
  rw [Arguments.flatten_settings] at fits
  have ticked := Host.tick_script runs fits
  have queued : (Host.onShell fun s => args.settings.1.foldl (fun s line => s.addText line) s : Act Session Unit) s =
      .ok () (s.queue (script lines)) := by
    have room : Text.size s.shell.pending + Text.size args.settings.1.flatten < Shell.pendingLimit := by
      rw [idle, Arguments.flatten_settings, Text.size_nil, Nat.zero_add]
      exact fits
    have added := Shell.foldl_addText room
    rw [idle, List.nil_append, Arguments.flatten_settings] at added
    exact congrArg (fun shell => EStateM.Result.ok () (Host.mk shell s.world)) added
  have same := Shell.unaffected_enactAll (taken (args.drop 1) ++ cutOff (args.drop 1)) s.begun.shell
  simp only [Shell.unaffected, Prod.mk.injEq] at same
  refine ⟨_, (Act.bind_of_ok queued).trans ticked, same.2.2.2.2.1.trans ready, rfl, same.2.1.trans going,
    same.2.2.2.1, rfl, fun name there => ?_⟩
  have split : s.begun.shell.enactAll (taken (args.drop 1) ++ cutOff (args.drop 1)) =
      (s.begun.shell.enactAll (taken (args.drop 1))).enactAll (cutOff (args.drop 1)) := List.foldl_append
  have last := Shell.vars_enactAll_cutOff (fun setting member => (legible.cutOff setting member).2)
    (s.begun.shell.enactAll (taken (args.drop 1)))
  have declared : NameTable.has s.begun.shell.vars name = true := there
  have first := Shell.variableText_enactAll (fun setting member => (legible.taken setting member).2) declared
  change (s.begun.shell.enactAll _).variableText name = _
  rw [split, Shell.variableText, last]
  exact first

/-- The line that asks for the commands among the arguments is followed by these and by nothing else. -/
theorem awaiting_round {args : Arguments} (ready : Ready s) (idle : s.shell.pending = []) (going : s.shell.paused = false)
    (fits : Text.size args.settings.2.commands < Shell.pendingLimit) :
    ∃ t, round (awaiting args s).begun = .ok true t ∧ t.shell.pending = args.settings.2.commands ∧
      t.shell.paused = false ∧ t.shell.vars = s.shell.vars ∧ t.world = s.world := by
  have added : (awaiting args s).begun = Host.queue "stuffcmds\n"
      { s with shell := { s.shell with arguments := args.settings.2, expansions := 0 } } := by
    unfold awaiting Shell.addText Shell.hasRoom
    dsimp only
    rw [idle]
    rfl
  let m : Session := { s with shell := { s.shell with arguments := args.settings.2, expansions := 0, pending := [] } }
  have begins : Begins "stuffcmds\n" "stuffcmds" [] := ⟨List.cons_ne_nil _ _, by decide⟩
  have known : NameTable.get? m.shell.commands "stuffcmds".toList = some (.builtin .runArguments) := by
    rw [show m.shell.commands = commandTable from ready]
    decide
  have words : (Line.ofText "stuffcmds").words = ["stuffcmds".toList] := by decide
  have ran : Host.runLine "stuffcmds" .player m = _ := Host.runLine_builtin .player words known
  have inserted := Shell.runArguments_alone (s := m.shell.accept "stuffcmds" .player) (congrArg List.length words) rfl fits
  rw [show Shell.runBuiltin .runArguments (m.shell.accept "stuffcmds" .player) = _ from inserted] at ran
  refine ⟨⟨{ m.shell.accept "stuffcmds" .player with pending := args.settings.2.commands }, s.world⟩, ?_, rfl, going,
    rfl, rfl⟩
  rw [added, Host.round_wordy begins (by decide), show Host.queue [] (Host.queue _ _) = m from rfl, ran]
  exact if_neg (Bool.eq_false_iff.1 going)

/-- Taking the settings out of the arguments leaves the other commands as they are, each with its own operands, exactly
if no command stands where a setting has its name or value and no operand that was the setting's comes behind an open
command. Where the settings can be read from the lines they are made into, each is made once, in order and before all
other commands, and nothing else is done; the other commands are what is run then; and a variable has at last what the
last setting of it says, unless one of the lines that are run then writes it. -/
theorem arguments_enacted {args : Arguments} (ready : Ready s) (idle : s.shell.pending = [])
    (going : s.shell.paused = false) (legible : Legible (args.drop 1))
    (early : Text.size args.settings.1.flatten < Shell.pendingLimit)
    (late : Text.size args.settings.2.commands < Shell.pendingLimit) :
    (commandGroups (args.settings.2.drop 1) = others (commandGroups (args.drop 1)) ↔ apart false (args.drop 1) = true) ∧
    (apart false (args.drop 1) = true →
      args.settings.2.commands = (others (commandGroups (args.drop 1))).flatMap groupLine) ∧
    ∃ t, enactSettings args s = .ok () t ∧ t.shell.pending = [] ∧ t.shell.aliases = s.shell.aliases ∧ t.world = s.world ∧
      (∀ name, NameTable.has s.shell.vars name = true →
        t.shell.variableText name = settled (taken (args.drop 1)) name (s.shell.variableText name)) ∧
      (∃ u, round (awaiting args t).begun = .ok true u ∧ u.shell.pending = args.settings.2.commands ∧
        u.shell.paused = false ∧ u.shell.vars = t.shell.vars ∧ u.world = t.world) ∧
      ∀ before name value after, taken (args.drop 1) = before ++ (name, value) :: after →
        NameTable.has s.shell.vars name = true → (∀ later ∈ after, Text.same later.1 name = false) →
        (∀ m line, Comes (awaiting args t).begun line m → writes (m.shell.accept line .player) name = false) →
        (Act.final (Host.tick (awaiting args t))).shell.variableText name = value := by
  have intact : _ ↔ apart false (args.drop 1) = true := Arguments.intact_iff false (args.drop 1)
  simp only [Arguments.Intact, Bool.false_eq_true, false_implies, true_and] at intact
  rw [Arguments.drop_settings]
  obtain ⟨t, ran, known, empty, still, aliases, world, texts⟩ := enactSettings_legible ready idle going legible early
  refine ⟨intact, fun fine => ?_, t, ran, empty, aliases, world, texts, awaiting_round known empty still late, ?_⟩
  · rw [Arguments.commands_eq, Arguments.drop_settings, intact.2 fine]
  · intro before name value after settings there last unwritten
    have same : (awaiting args t).shell.vars = t.shell.vars ∧ Ready (awaiting args t) := by
      unfold awaiting Ready Shell.addText
      split <;> exact ⟨rfl, known⟩
    rw [variableText_tick same.2 unwritten, Shell.variableText, same.1]
    refine (texts name there).trans ?_
    rw [settings]
    exact Arguments.settled_of_last last _

end

/-- A setting with a further operand, behind a command that is open. -/
def strayArguments : Arguments := ["qcore", "+echo", "a", "+set", "_cl_name", "x", "b"].map String.toList

/-- The operand goes to the command, although the setting is made. -/
theorem stray_operand_gained :
    others (commandGroups (strayArguments.drop 1)) = [["echo".toList, "a".toList]] ∧
      strayArguments.settings.2.commands = "echo a b\n".toList ∧
      commandGroups (strayArguments.settings.2.drop 1) ≠ others (commandGroups (strayArguments.drop 1)) ∧
      ∃ t, enactSettings strayArguments demoStart = .ok () t ∧ t.shell.variableText "_cl_name" = "x".toList := by
  have legible : Legible (strayArguments.drop 1) := ⟨by decide +kernel, by decide +kernel⟩
  obtain ⟨intact, _, t, ran, _, _, _, texts, _⟩ := arguments_enacted (s := demoStart) fresh_demoStart.ready
    (by decide +kernel) (by decide +kernel) legible (by decide +kernel) (by decide +kernel)
  refine ⟨by decide, by decide, fun same => ?_, t, ran, ?_⟩
  · exact absurd (intact.1 same) (by decide)
  · rw [texts "_cl_name" (by decide +kernel)]
    rfl

end GameHost.Client
