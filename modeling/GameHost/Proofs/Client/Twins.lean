import GameHost.Proofs.Client.Shielded
import GameHost.Proofs.Client.Walk
import GameHost.Proofs.Shell.Comments
import GameHost.Proofs.Shell.LateCommands

/-!
Two sessions that differ only in the end of the text that waits, and in how their lines were written. What runs in the
one runs in the other just so, and what it puts ahead of the text is complete lines, so that the ends stay what they are.
-/
namespace GameHost.Client
open GameHost.Shell (Complete complete_newline)
open GameHost.Host (Meaning)

/-- Commands of the client, all of them or some. -/
def Listed (names : NameTable (Action ClientCommand)) : Prop :=
  ∀ name action, NameTable.get? names name = some action → NameTable.get? commandTable name = some action

/-- Two outcomes that differ only so. The first session has the one text at the end of what waits, the second the
other. -/
def Alike {α : Type} (names : NameTable (Action ClientCommand)) (first second : Text)
    (r q : EStateM.Result Fault Session α) : Prop :=
  ∃ outcome ahead write, Complete ahead ∧ r = Act.moved (veil (ahead ++ first) names write) outcome ∧
    q = Act.moved (veil (ahead ++ second) names id) outcome

/-- The first text is the longer one, by so many bytes at most. -/
structure Slack (extra : Nat) (first second : Text) : Prop where
  longer : Text.size second ≤ Text.size first
  bounded : Text.size first ≤ Text.size second + extra

/-- There is room for so many bytes more. -/
def Roomy (extra : Nat) (s : Session) : Prop := Text.size s.shell.pending + extra < Shell.pendingLimit

/-- An action and its twin have outcomes that differ only so, if there is room in the first session for what the second
queues. -/
def Twinned {α : Type} (names : NameTable (Action ClientCommand)) (act twin : Act Session α) : Prop :=
  ∀ extra first second write m, Slack extra first second → Roomy extra (Act.final (twin (veil second names id m))) →
    Alike names first second (act (veil first names write m)) (twin (veil second names id m))

/-- An action that is its own twin. -/
abbrev Inserts {α : Type} (names : NameTable (Action ClientCommand)) (act : Act Session α) : Prop := Twinned names act act

section

variable {α β : Type} {names : NameTable (Action ClientCommand)} {first second : Text} {extra : Nat}

theorem pending_of_commutes {act : Act Session α} {s : Session}
    (commutes : Act.Commutes (veil s.shell.pending s.shell.commands id) act) :
    (Act.final (act s)).shell.pending = s.shell.pending := by
  have ran := commutes s
  rw [show veil s.shell.pending s.shell.commands id s = s from rfl] at ran
  rw [ran, Act.final_moved]
  rfl

theorem Alike.of_commutes {act : Act Session α} {write : Text → Text} (here : Act.Commutes (veil first names write) act)
    (there : Act.Commutes (veil second names id) act) (m : Session) :
    Alike names first second (act (veil first names write m)) (act (veil second names id m)) :=
  ⟨act m, [], write, .none, here m, there m⟩

theorem Alike.bind {act twin : Act Session α} {next : α → Act Session β} {s t : Session}
    (alike : Alike names first second (act s) (twin t)) (shielded : ∀ a, Shielded (next a)) :
    Alike names first second ((act >>= next) s) ((twin >>= next) t) := by
  obtain ⟨outcome, ahead, write, complete, here, there⟩ := alike
  cases outcome with
  | ok a m =>
    rw [Act.bind_of_ok here, Act.bind_of_ok there]
    exact ⟨next a m, ahead, write, complete, shielded a _ _ _ m, shielded a _ _ _ m⟩
  | error fault m =>
    rw [Act.bind_of_error here, Act.bind_of_error there]
    exact ⟨.error fault m, ahead, write, complete, rfl, rfl⟩

theorem Roomy.of_bind {act : Act Session α} {next : α → Act Session β} {s : Session}
    (roomy : Roomy extra (Act.final ((act >>= next) s))) (shielded : ∀ a, Shielded (next a)) :
    Roomy extra (Act.final (act s)) := by
  cases ran : act s with
  | ok a m =>
    rw [Act.bind_of_ok ran, Roomy, pending_of_commutes (shielded a _ _ _)] at roomy
    exact roomy
  | error fault m =>
    rw [Act.bind_of_error ran] at roomy
    exact roomy

namespace Twinned

theorem of_shielded {act : Act Session α} (shielded : Shielded act) : Inserts names act :=
  fun _ _ _ _ m _ _ => .of_commutes (shielded _ _ _) (shielded _ _ _) m

theorem after {act : Act Session α} {next twin : α → Act Session β} (shielded : Shielded act)
    (twinned : ∀ a, Twinned names (next a) (twin a)) : Twinned names (act >>= next) (act >>= twin) := by
  intro extra first second write m slack roomy
  have here := shielded first names write m
  have there := shielded second names id m
  cases ran : act m with
  | ok a t =>
    rw [ran] at here there
    rw [Act.bind_of_ok there] at roomy ⊢
    rw [Act.bind_of_ok here]
    exact twinned a extra first second write t slack roomy
  | error fault t =>
    rw [ran] at here there
    rw [Act.bind_of_error here, Act.bind_of_error there]
    exact ⟨.error fault t, [], write, .none, rfl, rfl⟩

theorem before {act twin : Act Session α} {next : α → Act Session β} (twinned : Twinned names act twin)
    (shielded : ∀ a, Shielded (next a)) : Twinned names (act >>= next) (twin >>= next) :=
  fun extra first second write m slack roomy =>
    (twinned extra first second write m slack (roomy.of_bind shielded)).bind shielded

theorem ask_bind {next twin : Client → Act Session β} (each : ∀ c, Twinned names (next c) (twin c)) :
    Twinned names (ask >>= next) (ask >>= twin) :=
  fun extra first second write m => each m.world extra first second write m

/-- What is done with what the action looks at of the session. -/
theorem get_bind {next : Session → Act Session β} (blind : ∀ waiting names write s, next (veil waiting names write s) = next s)
    (each : ∀ s, Inserts names (next s)) : Inserts names (get >>= next) := by
  intro extra first second write m slack roomy
  have veiled (waiting : Text) (write : Text → Text) :
      (get >>= next) (veil waiting names write m) = next m (veil waiting names write m) := by
    rw [Act.bind_get, blind]
  rw [veiled] at roomy
  rw [veiled, veiled]
  exact each m extra first second write m slack roomy

/-- What is done with the words of the line, however it was written. -/
theorem line_bind {next twin : Line → Act Session β} (blind : ∀ line tail, next { line with tail } = next line)
    (each : ∀ line, Twinned names (next line) (twin line)) : Twinned names (line >>= next) (line >>= twin) := by
  intro extra first second write m slack roomy
  change Alike names first second (next { m.shell.line with tail := write m.shell.line.tail } (veil first names write m)) _
  rw [blind]
  exact each m.shell.line extra first second write m slack roomy

end Twinned

namespace Inserts
open Twinned (after ask_bind before of_shielded)

/-- Complete lines are queued in both sessions or in neither. -/
theorem insertText {text : Text} (complete : Complete text) : Inserts names (Host.onShell (Shell.insertText text)) := by
  intro extra first second write m slack roomy
  have put (waiting : Text) (write : Text → Text) :
      Host.onShell (Shell.insertText text) (veil waiting names write m) =
        if Text.size waiting + Text.size text < Shell.pendingLimit then .ok () (veil (text ++ waiting) names write m)
        else .ok () (veil waiting names write { m with shell := m.shell.print "Cbuf_InsertText: overflow\n" }) := by
    change EStateM.Result.ok () (Host.mk (Shell.insertText text (veil waiting names write m).shell) m.world) = _
    have room : (veil waiting names write m).shell.hasRoom text =
        decide (Text.size waiting + Text.size text < Shell.pendingLimit) := rfl
    rw [Shell.insertText, room]
    by_cases fits : Text.size waiting + Text.size text < Shell.pendingLimit
    · rw [if_pos (decide_eq_true fits), if_pos fits]
      rfl
    · rw [if_neg (by simpa using fits), if_neg fits]
      rfl
  have longer := slack.longer
  have bounded := slack.bounded
  rw [put second] at roomy
  rw [put first, put second]
  by_cases room : Text.size second + Text.size text < Shell.pendingLimit
  · rw [if_pos room] at roomy
    have fits : Text.size (text ++ second) + extra < Shell.pendingLimit := roomy
    rw [Text.size_append] at fits
    rw [if_pos (show Text.size first + Text.size text < Shell.pendingLimit by omega), if_pos room]
    exact ⟨.ok () m, text, write, complete, rfl, rfl⟩
  · rw [if_neg (show ¬Text.size first + Text.size text < Shell.pendingLimit by omega), if_neg room]
    exact ⟨.ok () _, [], write, .none, rfl, rfl⟩

theorem queueNextDemo : Inserts names queueNextDemo := by
  unfold Client.queueNextDemo
  refine ask_bind fun c => ?_
  split
  · split
    · exact of_shielded (.bind (.print _) fun _ => .change _)
    · exact before (insertText (complete_newline _)) fun _ => .change _
  · exact of_shielded (.pure _)

theorem startDemos : Inserts names startDemos := by
  have loop (demos : List Text) : Inserts names (do
      Client.print (Text.ofNat demos.length ++ " demo(s) in loop\n")
      Client.change fun c => { c with demos := demos.map (List.take Client.loopNameLimit) }
      let c ← ask
      if c.nextDemo != -1 && !c.playing then
        Client.change fun c => { c with nextDemo := 0 }
        Client.queueNextDemo
      else Client.change fun c => { c with nextDemo := -1 }) := by
    refine after (.print _) fun _ => after (.change _) fun _ => ask_bind fun c => ?_
    split
    · exact after (.change _) fun _ => queueNextDemo
    · exact of_shielded (.change _)
  refine Twinned.line_bind (fun _ _ => rfl) fun line => ?_
  dsimp only
  split
  · exact after (.print _) fun _ => loop _
  · exact loop _

theorem resumeDemos : Inserts names resumeDemos :=
  after (.change _) fun _ => after .disconnect fun _ => queueNextDemo

theorem runScript : Inserts names (Host.runScript : Act Session Unit) := by
  refine Twinned.get_bind (fun _ _ _ _ => rfl) fun s => ?_
  split
  · exact of_shielded (.print _)
  · dsimp only
    split
    · exact after (.print _) fun _ => insertText (complete_newline _)
    · exact of_shielded (.print _)

theorem expand (value : Text) : Inserts names (Host.onShell (Host.expand value) : Act Session Unit) := by
  let counted (s : Session) : Session := { s with shell := { s.shell with expansions := s.shell.expansions + 1 } }
  obtain ⟨lines, complete, ran⟩ : ∃ lines, Complete lines ∧ ∀ s, (Host.onShell (Host.expand value) : Act Session Unit) s =
      if Host.expansionLimit ≤ s.shell.expansions + 1 then Client.print "ALIAS_LOOP_COUNT\n" (counted s)
      else Host.onShell (Shell.insertText lines) (counted s) := by
    refine ⟨Shell.ended value, Shell.complete_ended value, fun s => ?_⟩
    change EStateM.Result.ok () (Host.mk (Host.expand value s.shell) s.world) = _
    unfold Host.expand
    dsimp only
    split <;> rfl
  intro extra first second write m slack roomy
  have same (waiting : Text) (write : Text → Text) : (veil waiting names write m).shell.expansions = m.shell.expansions := rfl
  rw [ran, same] at roomy
  rw [ran, ran, same, same]
  split
  · exact .of_commutes (Shielded.print _ _ _ _) (Shielded.print _ _ _ _) (counted m)
  · rename_i few
    rw [if_neg few] at roomy
    exact insertText complete extra first second write (counted m) slack roomy

theorem runArguments : Inserts names (Host.onShell Shell.runArguments : Act Session Unit) := by
  intro extra first second write m slack roomy
  have outcome : Inserts names (if m.shell.line.count != 1 then
      Client.print "stuffcmds : execute command line parameters\n"
    else if m.shell.arguments.commands.isEmpty then pure ()
    else Host.onShell (Shell.insertText m.shell.arguments.commands)) := by
    have complete : Complete m.shell.arguments.commands := by
      rw [Arguments.commands_eq]
      induction Arguments.commandGroups (List.drop 1 m.shell.arguments) with
      | nil => exact .none
      | cons group groups ih => exact (complete_newline _).append ih
    split
    · exact of_shielded (.print _)
    · split
      · exact of_shielded (.pure _)
      · exact insertText complete
  have ran (waiting : Text) (write : Text → Text) :
      (Host.onShell Shell.runArguments : Act Session Unit) (veil waiting names write m) =
        (if m.shell.line.count != 1 then Client.print "stuffcmds : execute command line parameters\n"
        else if m.shell.arguments.commands.isEmpty then pure ()
        else Host.onShell (Shell.insertText m.shell.arguments.commands)) (veil waiting names write m) := by
    change EStateM.Result.ok () (Host.mk (Shell.runArguments (veil waiting names write m).shell) m.world) = _
    have count : (veil waiting names write m).shell.line.count = m.shell.line.count := rfl
    have same : (veil waiting names write m).shell.arguments = m.shell.arguments := rfl
    simp only [Shell.runArguments, count, same]
    split
    · rfl
    · split <;> rfl
  rw [ran] at roomy
  rw [ran, ran]
  exact outcome extra first second write m slack roomy

/-- A change of the shell that looks neither at what waits nor at how the line was written. -/
theorem of_beside {change : Shell ClientCommand → Shell ClientCommand}
    (beside : ∀ waiting write shell, change (shell.beside waiting write) = (change shell).beside waiting write)
    (kept : ∀ shell, (change shell).commands = shell.commands) : Inserts names (Host.onShell change : Act Session Unit) := by
  intro extra first second write m _ _
  have ran (waiting : Text) (write : Text → Text) : (Host.onShell change : Act Session Unit) (veil waiting names write m) =
      Act.moved (veil waiting names write) (.ok () ⟨change { m.shell with commands := names }, m.world⟩) := by
    have same : (change { m.shell with commands := names }).commands = names := kept _
    change EStateM.Result.ok () (Host.mk (change (Shell.beside waiting write { m.shell with commands := names })) m.world) = _
    rw [beside]
    generalize change { m.shell with commands := names } = shell at same
    subst same
    rfl
  exact ⟨_, [], write, .none, ran first write, ran second id⟩

theorem runBuiltin (command : Builtin) : Inserts names (Host.onShell (Shell.runBuiltin command) : Act Session Unit) := by
  by_cases arguments : command = .runArguments
  · subst arguments
    exact runArguments
  · exact of_beside (Shell.runBuiltin_beside arguments) (Shell.commands_runBuiltin command)

theorem useVariable : Inserts names (Host.onShell fun s =>
    (s.useVariable (s.line.word 0) s.line.count (s.line.word 1)).2 : Act Session Unit) :=
  of_beside (fun waiting write shell => (Shell.aloof_beside waiting write).useVariable _ _ _ shell)
    fun _ => Shell.commands_useVariable ..

theorem ifFromPlayer {act twin : Act Session Unit} (twinned : Twinned names act twin) :
    Twinned names (ifFromPlayer act) (ifFromPlayer twin) := by
  refine after .fromPlayer fun given => ?_
  split
  · exact twinned
  · exact of_shielded (.pure _)

section
variable {run other : Text → Source → Act Session Unit}

theorem record (maps : ∀ word, Twinned names (run ("map " ++ word) .player) (other ("map " ++ word) .player)) :
    Twinned names (record run) (record other) := by
  have begins (line : Line) (path : Path) : Twinned names (if 2 < line.count then (do
      run ("map " ++ line.word 2) .player
      Client.beginRecording path (trackAsked line))
      else Client.beginRecording path (trackAsked line)) (if 2 < line.count then (do
      other ("map " ++ line.word 2) .player
      Client.beginRecording path (trackAsked line))
      else Client.beginRecording path (trackAsked line)) := by
    split
    · exact before (maps _) fun _ => .beginRecording _ _
    · exact of_shielded (.beginRecording _ _)
  refine Twinned.line_bind (fun _ _ => rfl) fun line => ask_bind fun c => ?_
  split
  · exact of_shielded (.print _)
  · dsimp only
    split
    · exact after (.print _) fun _ => begins line _
    · exact begins line _

theorem perform (maps : ∀ word, Twinned names (run ("map " ++ word) .player) (other ("map " ++ word) .player))
    (command : ClientCommand) : Twinned names (perform run command) (perform other command) := by
  cases command with
  | disconnect => exact of_shielded .disconnect
  | quit => exact ifFromPlayer (of_shielded (.change _))
  | writeConfig => exact ifFromPlayer (of_shielded .writeConfig)
  | record => exact ifFromPlayer (record maps)
  | stop => exact ifFromPlayer (of_shielded .stopRecording)
  | play => exact ifFromPlayer (of_shielded .play)
  | timeDemo => exact ifFromPlayer (of_shielded .timeDemo)
  | startDemos => exact startDemos
  | demos => exact resumeDemos
  | stopDemo => exact of_shielded .stopDemo

end

end Inserts

/-- Whether the line that is run may be handed to the server as it was written. -/
def mayForward (s : Shell ClientCommand) : Bool :=
  match Host.meaning s with
  | .command .forward | .unknown => true
  | _ => false

theorem Listed.map (listed : Listed names) : NameTable.get? names "map".toList = none := by
  cases found : NameTable.get? names "map".toList with
  | none => rfl
  | some action =>
    have none : NameTable.get? commandTable "map".toList = none := by decide
    rw [listed _ _ found] at none
    cases none

/-- What a line does it does in both sessions, as long as a line that the server gets to see is written alike. -/
theorem alike_runMeaning {run other : Text → Source → Act Session Unit} {m : Session} {write : Text → Text}
    (commands : ∀ action, Host.meaning m.shell = .command action → action ≠ .forward →
      Twinned names (Host.runAction run action) (Host.runAction other action))
    (plain : mayForward m.shell = true → write = id) (slack : Slack extra first second)
    (roomy : Roomy extra (Act.final (Host.runMeaning other (Host.meaning m.shell) (veil second names id m)))) :
    Alike names first second (Host.runMeaning run (Host.meaning m.shell) (veil first names write m))
      (Host.runMeaning other (Host.meaning m.shell) (veil second names id m)) := by
  unfold mayForward at plain
  rcases named : Host.meaning m.shell with _ | action | value | _ | _
  · exact .of_commutes (.pure _) (.pure _) m
  · rw [named] at roomy plain
    by_cases forward : action = .forward
    · subst forward
      rw [plain rfl]
      exact .of_commutes (commutes_hostForwardLine (unseen_veil first names)) (commutes_hostForwardLine (unseen_veil second names)) m
    · exact commands action named forward extra first second write m slack roomy
  · rw [named] at roomy
    exact Inserts.expand value extra first second write m slack roomy
  · rw [named] at roomy
    exact Inserts.useVariable extra first second write m slack roomy
  · rw [named] at plain
    rw [plain rfl]
    exact .of_commutes (commutes_runUnknown (unseen_veil first names)) (commutes_runUnknown (unseen_veil second names)) m

/-- The line that starts a map names no command, and is written alike in both sessions. -/
theorem Twinned.map (listed : Listed names) (depth other : Nat) (word : Text) :
    Twinned names (Host.runLineWithin (depth + 1) ("map " ++ word) .player)
      (Host.runLineWithin (other + 1) ("map " ++ word) .player) := by
  intro extra first second write m slack roomy
  let t : Session := { m with shell := { m.shell with commands := names }.accept ("map " ++ word) .player }
  rw [Host.runLineWithin_succ] at roomy
  rw [Host.runLineWithin_succ, Host.runLineWithin_succ]
  exact alike_runMeaning (m := t) (fun action named => absurd named (map_means_no_command word listed.map action))
    (fun _ => rfl) slack roomy

/-- A line has the same outcome in both sessions, however it is written in the first, as long as it has the same words
and the server does not get to see it. -/
theorem alike_runLine (listed : Listed names) {line other : Text} (some : line ≠ []) (too : other ≠ [])
    (words : (Line.ofText line).words = (Line.ofText other).words) (slack : Slack extra first second) (write : Text → Text)
    (m : Session) (roomy : Roomy extra (Act.final (Host.runLine other .player (veil second names id m))))
    (unseen : line = other ∨ mayForward ((veil second names id m).shell.accept other .player) = false) :
    Alike names first second (Host.runLine line .player (veil first names write m))
      (Host.runLine other .player (veil second names id m)) := by
  obtain ⟨depth, length⟩ : ∃ depth, line.length = depth + 1 := Nat.exists_eq_succ_of_ne_zero (by simpa using some)
  obtain ⟨below, beneath⟩ : ∃ below, other.length = below + 1 := Nat.exists_eq_succ_of_ne_zero (by simpa using too)
  let t : Session := { m with shell := { m.shell with commands := names }.accept other .player }
  obtain ⟨pen, wrote, plain⟩ : ∃ pen, (⟨(veil first names write m).shell.accept line .player, m.world⟩ : Session) =
      veil first names pen t ∧ (mayForward t.shell = true → pen = id) := by
    rcases unseen with rfl | unseen
    · exact ⟨id, rfl, fun _ => rfl⟩
    · refine ⟨fun _ => (Line.ofText line).tail, ?_, fun seen => nomatch unseen.symm.trans seen⟩
      have same : Line.ofText line = ⟨(Line.ofText other).words, (Line.ofText line).tail⟩ := by rw [← words]
      exact congrArg (fun line => (⟨{ m.shell with
        pending := first, commands := names, line, source := .player }, m.world⟩ : Session)) same
  have meant : Host.meaning ((veil first names write m).shell.accept line .player) = Host.meaning t.shell :=
    congrArg (fun s : Session => Host.meaning s.shell) wrote
  rw [Host.runLine_eq, beneath] at roomy
  rw [Host.runLine_eq, Host.runLine_eq, length, beneath, meant]
  change Alike names first second (Host.runMeaning _ _ ⟨(veil first names write m).shell.accept line .player, m.world⟩) _
  rw [wrote]
  refine alike_runMeaning (m := t) (fun action named other => ?_) plain slack roomy
  cases action with
  | builtin command => exact Inserts.runBuiltin command
  | script => exact Inserts.runScript
  | forward => exact absurd rfl other
  | probe kind =>
    obtain ⟨name, entry⟩ := named_of_meaning named
    exact absurd rfl (not_probe (listed name _ entry) kind)
  | own command => exact Inserts.perform (Twinned.map listed depth below) command

end

end GameHost.Client
