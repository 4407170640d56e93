import GameHost.Client.Frame
import GameHost.Proofs.Act
import GameHost.Proofs.Shell.Names

/-!
What the client's actions do not look at: the text that waits to be run, the names of the commands, and the text of the
line as it was written. Whatever these are, an action does the same, and leaves them as they are.
-/
namespace GameHost

namespace Act

variable {ε σ α β : Type}

/-- An outcome, with the state changed. -/
def moved (f : σ → σ) : EStateM.Result ε σ α → EStateM.Result ε σ α
  | .ok a s => .ok a (f s)
  | .error fault s => .error fault (f s)

@[simp] theorem final_moved (f : σ → σ) (outcome : EStateM.Result ε σ α) : final (moved f outcome) = f (final outcome) := by
  cases outcome <;> rfl

/-- It makes no difference whether the state is changed before the action or after it. -/
def Commutes (f : σ → σ) (act : EStateM ε σ α) : Prop := ∀ s, act (f s) = moved f (act s)

namespace Commutes

variable {f : σ → σ}

theorem pure (a : α) : Commutes f (pure a : EStateM ε σ α) := fun _ => rfl

theorem bind {act : EStateM ε σ α} {next : α → EStateM ε σ β} (first : Commutes f act)
    (second : ∀ a, Commutes f (next a)) : Commutes f (act >>= next) := by
  intro s
  have here := first s
  cases ran : act s with
  | ok a m =>
    rw [ran] at here
    rw [bind_of_ok ran, bind_of_ok here]
    exact second a m
  | error fault m =>
    rw [ran] at here
    rw [bind_of_error ran, bind_of_error here]
    rfl

theorem within {τ : Type} {view : σ → τ} {replace : τ → σ → σ} {act : Act τ α} (looks : ∀ s, view (f s) = view s)
    (keeps : ∀ part s, replace part (f s) = f (replace part s)) : Commutes f (Act.within view replace act) := by
  intro s
  cases ran : act (view s) with
  | ok a part =>
    rw [within_of_ok ((looks s).symm ▸ ran), within_of_ok ran, keeps]
    rfl
  | error fault part =>
    rw [within_of_error ((looks s).symm ▸ ran), within_of_error ran, keeps]
    rfl

end Commutes

end Act

namespace Shell

variable {α : Type}

/-- A change that concerns neither the console nor the variables, whatever they are. -/
structure Aloof (f : Shell α → Shell α) : Prop where
  console : ∀ s, (f s).console = s.console
  vars : ∀ s, (f s).vars = s.vars
  announcements : ∀ s, (f s).announcements = s.announcements
  update : ∀ s console vars announcements,
    f { s with console, vars, announcements } = { f s with console, vars, announcements }

namespace Aloof

variable {f : Shell α → Shell α}

theorem print (aloof : Aloof f) (text : Text) (s : Shell α) : (f s).print text = f (s.print text) := by
  refine Eq.trans ?_ (aloof.update s (s.console.print text) s.vars s.announcements).symm
  simp only [Shell.print, aloof.console, aloof.vars, aloof.announcements]

theorem setVariable (aloof : Aloof f) (name text : Text) (s : Shell α) :
    (f s).setVariable name text = f (s.setVariable name text) := by
  unfold Shell.setVariable
  rw [aloof.vars, aloof.announcements]
  cases NameTable.find? s.vars name with
  | none => exact aloof.print _ s
  | some entry =>
    dsimp only
    split
    · rfl
    · refine Eq.trans ?_ (aloof.update s s.console _ _).symm
      simp only [aloof.console]

theorem useVariable (aloof : Aloof f) (name text : Text) (count : Nat) (s : Shell α) :
    ((f s).useVariable name count text).2 = f (s.useVariable name count text).2 := by
  unfold Shell.useVariable
  rw [aloof.vars]
  cases NameTable.find? s.vars name with
  | none => rfl
  | some entry =>
    dsimp only
    split
    · exact aloof.print _ s
    · exact aloof.setVariable _ _ s

theorem runSet (aloof : Aloof f) (words : ∀ s, (f s).line.words = s.line.words) (s : Shell α) :
    (f s).runSet = f s.runSet := by
  unfold Shell.runSet Line.count Line.word
  rw [words]
  split
  · exact aloof.print _ s
  · exact aloof.setVariable _ _ s

end Aloof

/-- The shell with other text that waits, and with its line written in another way. -/
def beside (waiting : Text) (write : Text → Text) (s : Shell α) : Shell α :=
  { s with pending := waiting, line := { s.line with tail := write s.line.tail } }

theorem aloof_beside (waiting : Text) (write : Text → Text) : Aloof (beside waiting write : Shell α → Shell α) :=
  ⟨fun _ => rfl, fun _ => rfl, fun _ => rfl, fun _ _ _ _ => rfl⟩

/-- Setting a variable changes nothing else of the shell. -/
theorem setVariable_only (name text : Text) (s : Shell α) :
    ∃ console vars announcements, s.setVariable name text = { s with console, vars, announcements } := by
  unfold setVariable
  split
  · exact ⟨_, _, _, rfl⟩
  · split
    · exact ⟨_, _, _, rfl⟩
    · exact ⟨_, _, _, rfl⟩

theorem useVariable_only (name text : Text) (count : Nat) (s : Shell α) :
    ∃ console vars announcements, (s.useVariable name count text).2 = { s with console, vars, announcements } := by
  unfold useVariable
  split
  · exact ⟨_, _, _, rfl⟩
  · split
    · exact ⟨_, _, _, rfl⟩
    · exact setVariable_only _ _ s

theorem runSet_only (s : Shell α) :
    ∃ console vars announcements, s.runSet = { s with console, vars, announcements } := by
  unfold runSet
  split
  · exact ⟨_, _, _, rfl⟩
  · exact setVariable_only _ _ s

theorem setAlias_beside (waiting : Text) (write : Text → Text) (name value : Text) (s : Shell α) :
    ((s.beside waiting write).setAlias name value).2 = (s.setAlias name value).2.beside waiting write := by
  have same : (s.beside waiting write).vars = s.vars ∧ (s.beside waiting write).commands = s.commands ∧
      (s.beside waiting write).aliases = s.aliases := ⟨rfl, rfl, rfl⟩
  unfold setAlias
  rw [same.1, same.2.1, same.2.2]
  repeat' split
  all_goals rfl

/-- No command that every shell has looks at what waits or at how its line was written, but the one that queues the
commands among the arguments. -/
theorem runBuiltin_beside {command : Builtin} (other : command ≠ .runArguments) (waiting : Text) (write : Text → Text)
    (s : Shell α) :
    runBuiltin command (s.beside waiting write) = (runBuiltin command s).beside waiting write := by
  have count : (s.beside waiting write).line.count = s.line.count := rfl
  match command with
  | .runArguments => exact absurd rfl other
  | .echo | .wait => rfl
  | .setVariable => exact (aloof_beside waiting write).runSet (fun _ => rfl) s
  | .alias =>
    simp only [runBuiltin, runAlias, count]
    split
    · rw [foldl_print, foldl_print]
      rfl
    · exact setAlias_beside ..
  | .unalias =>
    have same : NameTable.has (s.beside waiting write).aliases ((s.beside waiting write).line.word 1) =
        NameTable.has s.aliases (s.line.word 1) := rfl
    simp only [runBuiltin, runUnalias, removeAlias, count, same]
    cases NameTable.has s.aliases (s.line.word 1) <;> split <;> rfl
  | .listCommands | .listAliases | .listVariables =>
    simp only [runBuiltin, listCommands, listAliases, listVariables, list, foldl_print]
    rfl

end Shell

namespace Client

/-- The session with other text that waits, other commands, and its line written in another way. -/
def veil (waiting : Text) (names : NameTable (Action ClientCommand)) (write : Text → Text) (s : Session) : Session :=
  { s with shell := { s.shell with
    pending := waiting, commands := names, line := { s.shell.line with tail := write s.shell.line.tail } } }

/-- An action that does not look at these. -/
def Shielded {α : Type} (act : Act Session α) : Prop := ∀ waiting names write, Act.Commutes (veil waiting names write) act

namespace Shielded

variable {σ α β : Type}

theorem pure (a : α) : Shielded (pure a) := fun _ _ _ => .pure a

theorem bind {act : Act Session α} {next : α → Act Session β} (first : Shielded act) (second : ∀ a, Shielded (next a)) :
    Shielded (act >>= next) :=
  fun waiting names write => (first waiting names write).bind fun a => second a waiting names write

theorem ask_bind {next : Client → Act Session β} (each : ∀ c, Shielded (next c)) : Shielded (ask >>= next) :=
  fun waiting names write s => each s.world waiting names write s

theorem change (f : Client → Client) : Shielded (change f) := fun _ _ _ _ => rfl

theorem print (text : Text) : Shielded (print text) := fun _ _ _ _ => rfl

theorem fromPlayer : Shielded fromPlayer := fun _ _ _ _ => rfl

/-- What is done with what the action looks at of the session. -/
theorem get_bind {next : Session → Act Session β} (blind : ∀ waiting names write s, next (veil waiting names write s) = next s)
    (each : ∀ s, Shielded (next s)) : Shielded (get >>= next) := by
  intro waiting names write s
  change next (veil waiting names write s) (veil waiting names write s) = _
  rw [blind]
  exact each s waiting names write s

theorem finishTiming : Shielded finishTiming :=
  ask_bind fun _ => bind (change _) fun _ => print _

theorem stopPlayback : Shielded stopPlayback := by
  apply ask_bind
  intro c
  split
  · refine bind (change _) fun _ => ?_
    split
    · exact finishTiming
    · exact pure _
  · exact pure _

theorem onDemoFile (file : Writer) (act : FileAct Unit) : Shielded (onDemoFile file act) := by
  apply ask_bind
  intro c
  split
  · exact bind (change _) fun _ => pure _
  · exact bind (change _) fun _ => pure _

theorem recordingFailed (fault : StorageFault) : Shielded (recordingFailed fault) := bind (print _) fun _ => change _

theorem stopRecording : Shielded stopRecording := by
  apply ask_bind
  intro c
  split
  · refine bind (onDemoFile _ _) fun fault => ?_
    cases fault with
    | none => exact bind (change _) fun _ => print _
    | some fault => exact recordingFailed fault
  · exact print _

theorem hangUp : Shielded hangUp := by
  apply ask_bind
  intro c
  split
  · exact change _
  · exact pure _

theorem disconnect : Shielded disconnect := by
  have forgotten : Shielded (Client.change fun c => { c with socket := none, connected := false, signon := 0 }) := change _
  have hungUp : Shielded (do
      Client.hangUp
      Client.change fun c => { c with socket := none, connected := false, signon := 0 }) :=
    bind hangUp fun _ => forgotten
  apply ask_bind
  intro c
  dsimp only
  split
  · exact bind stopPlayback fun _ => forgotten
  · split
    · split
      · exact bind stopRecording fun _ => hungUp
      · exact hungUp
    · exact forgotten

theorem writeConfig : Shielded writeConfig := by
  refine get_bind (fun _ _ _ _ => rfl) fun s => ?_
  dsimp only
  split
  · exact change _
  · exact bind (change _) fun _ => print _

theorem beginRecording (path : Path) (track : Int32) : Shielded (beginRecording path track) := by
  refine bind (print _) fun _ => ask_bind fun c => ?_
  split
  · exact bind (change _) fun _ => change _
  · exact bind (change _) fun _ => print _

theorem playDemo (name : Text) : Shielded (playDemo name) := by
  refine bind disconnect fun _ => bind (print _) fun _ => ask_bind fun c => ?_
  split
  · exact bind (print _) fun _ => bind (change _) fun _ => pure _
  · exact bind (change _) fun _ => bind (change _) fun _ => pure _

/-- What is done with the words of the line, however it was written. -/
theorem line_bind {next : Line → Act Session β} (blind : ∀ line tail, next { line with tail } = next line)
    (each : ∀ line, Shielded (next line)) : Shielded (line >>= next) :=
  @get_bind _ (fun s => next s.shell.line) (fun _ _ _ _ => blind _ _) fun s => each s.shell.line

theorem demoNamed (usage : Text) : Shielded (demoNamed usage) := by
  refine line_bind (fun _ _ => rfl) fun line => ?_
  split
  · exact pure _
  · exact bind (print _) fun _ => pure _

theorem play : Shielded play := by
  refine bind (demoNamed _) fun name => ?_
  split
  · exact bind (playDemo _) fun _ => pure _
  · exact pure _

theorem timeDemo : Shielded timeDemo := by
  refine bind (demoNamed _) fun name => ?_
  split
  · refine bind (playDemo _) fun opened => ?_
    split
    · exact change _
    · exact pure _
  · exact pure _

theorem stopDemo : Shielded stopDemo := by
  apply ask_bind
  intro c
  split
  · exact bind stopPlayback fun _ => disconnect
  · exact pure _

end Shielded

/-- A change that concerns no more of a line than what the server is not told. -/
structure Unseen (f : Shell ClientCommand → Shell ClientCommand) : Prop extends Shell.Aloof f where
  line : ∀ s, (f s).line = s.line
  source : ∀ s, (f s).source = s.source

theorem unseen_veil (waiting : Text) (names : NameTable (Action ClientCommand)) : Unseen fun s =>
    { s with pending := waiting, commands := names, line := { s.line with tail := id s.line.tail } } where
  console _ := rfl
  vars _ := rfl
  announcements _ := rfl
  update _ _ _ _ := rfl
  line _ := rfl
  source _ := rfl

section

variable {f : Shell ClientCommand → Shell ClientCommand} (unseen : Unseen f)

include unseen

theorem commutes_print (text : Text) : Act.Commutes (fun s : Session => { s with shell := f s.shell }) (print text) :=
  fun s => congrArg (fun shell => EStateM.Result.ok () (Host.mk shell s.world)) (unseen.print text s.shell)

/-- What is handed to the server is the line as it was written, and no more is looked at. -/
theorem commutes_forwardLine : Act.Commutes (fun s : Session => { s with shell := f s.shell }) forwardLine := by
  intro s
  let act (line : Line) : Act Session Unit :=
    if !s.world.connected then Client.print ("Can't \"" ++ line.word 0 ++ "\", not connected\n")
    else if !s.world.playing then
      Client.within Client.outgoing (fun outgoing c => { c with outgoing }) (addCommand line)
    else pure ()
  have outcome (line : Line) : Act.Commutes (fun s : Session => { s with shell := f s.shell }) (act line) := by
    dsimp only [act]
    split
    · exact commutes_print unseen _
    · split
      · exact .within (fun _ => rfl) fun _ _ => rfl
      · exact .pure _
  change act (f s.shell).line _ = _
  rw [unseen.line]
  exact outcome s.shell.line s

/-- A line that names nothing does the same after such a change. -/
theorem commutes_runUnknown : Act.Commutes (fun s : Session => { s with shell := f s.shell }) Host.runUnknown := by
  intro s
  let act (line : Line) (source : Source) : Act Session Unit :=
    if source == .player && Program.forwardsUnknown (α := ClientCommand) s.world &&
        !((line.word 0).head? == some '+' || (line.word 0).head? == some '-') then Client.forwardLine
    else Client.print ("Unknown command \"" ++ line.word 0 ++ "\"\n")
  have outcome (line : Line) (source : Source) :
      Act.Commutes (fun s : Session => { s with shell := f s.shell }) (act line source) := by
    dsimp only [act]
    split
    · exact commutes_forwardLine unseen
    · exact commutes_print unseen _
  change act (f s.shell).line (f s.shell).source _ = _
  rw [unseen.line, unseen.source]
  exact outcome s.shell.line s.shell.source s

theorem commutes_hostForwardLine : Act.Commutes (fun s : Session => { s with shell := f s.shell }) Host.forwardLine := by
  intro s
  let act (source : Source) : Act Session Unit := if source == .player then Client.forwardLine else pure ()
  have outcome (source : Source) : Act.Commutes (fun s : Session => { s with shell := f s.shell }) (act source) := by
    dsimp only [act]
    split
    · exact commutes_forwardLine unseen
    · exact .pure _
  change act (f s.shell).source _ = _
  rw [unseen.source]
  exact outcome s.shell.source s

end

end Client

end GameHost
