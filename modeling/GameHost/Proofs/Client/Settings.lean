import GameHost.Proofs.Client.Move
import GameHost.Proofs.Shell.Line
import GameHost.Proofs.Shell.Round
import GameHost.Proofs.Turn

/-!
What becomes of the client's variables. Nothing but the lines of the console changes them, and such a line only gives
one of them a word of its own as its text, so that no variable is ever added or removed.
-/
namespace GameHost.Client
open GameHost.Message (Order)
open GameHost.Network (Socket Driver)

/-- What nothing but the lines of the console changes. -/
structure Settings where
  folders : SearchPath
  vars : NameTable Variable
  line : Line

def settings (s : Session) : Settings :=
  { folders := s.world.folders, vars := s.shell.vars, line := s.shell.line }

/-- An action that leaves them as they are, however it ends. -/
abbrev Unset {α : Type} (act : Act Session α) : Prop := Act.Keeps settings act

namespace Unset

variable {σ α : Type}

theorem of_beside {act : Act Session α} (beside : Beside act) : Unset act :=
  beside.through fun a => (⟨a.folders, a.vars, a.line⟩ : Settings)

theorem change {f : Client → Client} (same : ∀ c : Client, (f c).folders = c.folders) : Unset (change f) :=
  fun s => congrArg (fun folders => { settings s with folders }) (same s.world)

theorem onShell {f : Shell ClientCommand → Shell ClientCommand}
    (same : ∀ shell, ((f shell).vars, (f shell).line) = (shell.vars, shell.line)) :
    Unset (Host.onShell f : Act Session Unit) :=
  fun s => congrArg (fun pair => { settings s with vars := pair.1, line := pair.2 }) (same s.shell)

theorem print (text : Text) : Unset (print text) := fun _ => rfl

theorem addText (text : Text) : Unset (Host.onShell (Shell.addText text) : Act Session Unit) := by
  apply onShell
  intro shell
  unfold Shell.addText
  split <;> rfl

theorem insertText (text : Shell ClientCommand → Text) :
    Unset (Host.onShell fun shell => shell.insertText (text shell) : Act Session Unit) := by
  apply onShell
  intro shell
  unfold Shell.insertText
  split <;> rfl

theorem within {view : Client → σ} {replace : σ → Client → Client} {act : Act σ α}
    (same : ∀ part c, (replace part c).folders = c.folders) : Unset (within view replace act) :=
  Act.Keeps.within fun part s => congrArg (fun folders => { settings s with folders }) (same part s.world)

theorem exchange (net : Driver) (request : Act Driver α) : Unset (exchange net request) :=
  .bind (within fun _ _ => rfl) fun _ => .bind (of_beside .saveTape) fun _ => .pure _

theorem receive (net : Driver) (socket : Socket) : Unset (receive net socket) :=
  .bind (within fun _ _ => rfl) fun _ => .bind (of_beside .saveTape) fun _ => .pure _

theorem queueNextDemo : Unset queueNextDemo := by
  unfold Client.queueNextDemo
  apply Act.Keeps.ask_bind
  intro c
  split
  · split
    · exact .bind (print _) fun _ => change fun _ => rfl
    · exact .bind (insertText fun _ => _) fun _ => change fun _ => rfl
  · exact .pure _

theorem gameError (message : Text) : Unset (gameError message) :=
  .bind (print _) fun _ => .bind (change fun _ => rfl) fun _ => of_beside .disconnect

theorem endGame : Unset endGame := .bind (of_beside .disconnect) fun _ => queueNextDemo

theorem checkConnection : Unset checkConnection := by
  unfold Client.checkConnection
  apply Act.Keeps.ask_bind
  intro c
  split
  · apply Act.Keeps.bind (exchange _ _)
    intro answer
    split
    · exact .pure _
    · exact change fun _ => rfl
  · exact .pure _

theorem sendCommands : Unset sendCommands := by
  unfold Client.sendCommands
  apply Act.Keeps.ask_bind
  intro c
  split
  · exact .pure _
  · split
    · exact .bind (print _) fun _ => change fun _ => rfl
    · split
      · apply Act.Keeps.bind (exchange _ _)
        intro ready
        split
        · apply Act.Keeps.ask_bind
          intro c
          dsimp only
          apply Act.Keeps.bind (exchange _ _)
          intro result
          split
          · exact gameError _
          · exact change fun _ => rfl
        · exact .pure _
      · exact .pure _

theorem startDemos : Unset startDemos := by
  have loop (demos : List Text) : Unset (do
      Client.print (Text.ofNat demos.length ++ " demo(s) in loop\n")
      Client.change fun c => { c with demos := demos.map (List.take Client.loopNameLimit) }
      let c ← ask
      if c.nextDemo != -1 && !c.playing then
        Client.change fun c => { c with nextDemo := 0 }
        Client.queueNextDemo
      else Client.change fun c => { c with nextDemo := -1 }) := by
    refine .bind (print _) fun _ => .bind (change fun _ => rfl) fun _ => .ask_bind fun c => ?_
    split
    · exact .bind (change fun _ => rfl) fun _ => queueNextDemo
    · exact change fun _ => rfl
  refine .line_bind fun line => ?_
  dsimp only
  split
  · exact .bind (print _) fun _ => loop _
  · exact loop _

theorem resumeDemos : Unset resumeDemos :=
  .bind (change fun _ => rfl) fun _ => .bind (of_beside .disconnect) fun _ => queueNextDemo

theorem demoMessage : Unset demoMessage := by
  unfold Client.demoMessage
  apply Act.Keeps.ask_bind
  intro c
  refine .bind (change fun _ => rfl) fun _ => ?_
  dsimp only
  split
  · refine .bind (change fun _ => rfl) fun _ => ?_
    split
    · exact .throw _
    · exact .bind (of_beside .stopPlayback) fun _ => .pure _
    · exact .bind (within fun _ _ => rfl) fun _ => .bind (change fun _ => rfl) fun _ => .pure _
  · exact .pure _

theorem obey (orders : List Order) : Unset (obey orders) := by
  induction orders with
  | nil => exact .pure _
  | cons order rest ih =>
    cases order with
    | nothing => exact ih
    | time seconds => exact .bind (change fun _ => rfl) fun _ => ih
    | print text => exact .bind (print _) fun _ => ih
    | run text => exact .bind (addText _) fun _ => ih
    | signon number =>
      apply Act.Keeps.ask_bind
      intro c
      split
      · exact .bind (change fun _ => rfl) fun _ => ih
      · exact gameError _
    | leave => exact endGame
    | illegible => exact gameError _
    | broken => exact gameError _

theorem networkMessage (socket : Socket) (fuel : Nat) : Unset (networkMessage socket fuel) := by
  induction fuel with
  | zero => exact .throw _
  | succ fuel ih =>
    unfold Client.networkMessage
    apply Act.Keeps.ask_bind
    intro c
    split
    · exact .pure _
    · apply Act.Keeps.bind (receive _ _)
      intro kind
      split
      · exact .pure _
      · apply Act.Keeps.ask_bind
        intro c
        split
        · exact .bind (print _) fun _ => ih
        · exact .bind (of_beside .recordMessage) fun _ => .pure _

theorem nextMessage : Unset nextMessage := by
  unfold Client.nextMessage
  apply Act.Keeps.ask_bind
  intro c
  split
  · exact demoMessage
  · split
    · exact networkMessage _ _
    · exact .pure _

theorem readWithin (fuel : Nat) : Unset (readWithin fuel) := by
  induction fuel with
  | zero => exact .throw _
  | succ fuel ih =>
    apply Act.Keeps.bind nextMessage
    intro kind
    split
    · exact gameError _
    · split
      · refine .bind (.ask_bind fun _ => obey _) fun _ => .ask_bind fun c => ?_
        split
        · exact ih
        · exact .pure _
      · exact .pure _

theorem shutDown : Unset shutDown := by
  have left : Unset (do
      Client.disconnect
      Client.writeConfig
      Client.finishTape) :=
    .bind (of_beside .disconnect) fun _ => .bind (of_beside .writeConfig) fun _ => of_beside .finishTape
  unfold Client.shutDown
  apply Act.Keeps.ask_bind
  intro c
  dsimp only
  split
  · exact .bind (of_beside .stopRecording) fun _ => left
  · exact left

theorem forwardLine : Unset (Host.forwardLine : Act Session Unit) := by
  apply Act.Keeps.get_bind
  intro s
  split
  · exact of_beside .forwardLine
  · exact .pure _

theorem runUnknown : Unset (Host.runUnknown : Act Session Unit) := by
  apply Act.Keeps.get_bind
  intro s
  dsimp only
  split
  · exact of_beside .forwardLine
  · exact print _

theorem runScript : Unset (Host.runScript : Act Session Unit) := by
  apply Act.Keeps.get_bind
  intro s
  split
  · exact print _
  · dsimp only
    split
    · exact .bind (print _) fun _ => insertText fun _ => _
    · exact print _

theorem expand (value : Text) : Unset (Host.onShell (Host.expand value) : Act Session Unit) := by
  apply onShell
  intro shell
  unfold Host.expand Shell.insertText
  dsimp only
  repeat' split
  all_goals rfl

theorem runBuiltin {command : Builtin} (other : command ≠ .setVariable) :
    Unset (Host.onShell (Shell.runBuiltin command) : Act Session Unit) := by
  apply onShell
  intro shell
  match command with
  | .setVariable => exact absurd rfl other
  | .echo | .wait => rfl
  | .runArguments =>
    simp only [Shell.runBuiltin, Shell.runArguments, Shell.insertText]
    repeat' split
    all_goals rfl
  | .alias =>
    simp only [Shell.runBuiltin, Shell.runAlias, Shell.setAlias, Shell.foldl_print]
    repeat' split
    all_goals rfl
  | .unalias =>
    simp only [Shell.runBuiltin, Shell.runUnalias, Shell.removeAlias]
    cases NameTable.has shell.aliases (shell.line.word 1) <;> split <;> rfl
  | .listCommands | .listAliases | .listVariables =>
    simp only [Shell.runBuiltin, Shell.listCommands, Shell.listAliases, Shell.listVariables, Shell.list, Shell.foldl_print]
    rfl

theorem ifFromPlayer {act : Act Session Unit} (unset : Unset act) : Unset (ifFromPlayer act) := by
  refine .bind (fun _ => rfl) fun given => ?_
  split
  · exact unset
  · exact .pure _

/-- Recording a demo is the one command that can run a further line. -/
theorem perform {run : Text → Source → Act Session Unit} {command : ClientCommand} (other : command ≠ .record) :
    Unset (perform run command) := by
  cases command with
  | disconnect => exact of_beside .disconnect
  | quit => exact ifFromPlayer (change fun _ => rfl)
  | writeConfig => exact ifFromPlayer (of_beside .writeConfig)
  | record => exact absurd rfl other
  | stop => exact ifFromPlayer (of_beside .stopRecording)
  | play => exact ifFromPlayer (of_beside .play)
  | timeDemo => exact ifFromPlayer (of_beside .timeDemo)
  | startDemos => exact startDemos
  | demos => exact resumeDemos
  | stopDemo => exact of_beside .stopDemo

end Unset

/-- A variable without its text. -/
def declaration (entry : Text × Variable) : Text × Bool × Bool := (entry.1, entry.2.archived, entry.2.shared)

/-- The variables are those of a new client, and every text of theirs is a word that a line had. -/
structure Worded (folders : SearchPath) (s : Settings) : Prop where
  folders : s.folders = folders
  declared : s.vars.map declaration = variableTable.map declaration
  texts : ∀ entry ∈ s.vars, Token.Word entry.2.text
  words : ∀ word ∈ s.line.words, Token.Word word

namespace Worded

variable {folders : SearchPath} {s : Session}

theorem accept (worded : Worded folders (settings s)) (text : Text) (source : Source) :
    Worded folders (settings { s with shell := s.shell.accept text source }) :=
  ⟨worded.folders, worded.declared, worded.texts, fun _ member => Line.word_of_mem member⟩

theorem setVariable (worded : Worded folders (settings s)) (name : Text) {text : Text} (word : Token.Word text) :
    Worded folders (settings { s with shell := s.shell.setVariable name text }) := by
  obtain ⟨kept, declared, texts, words⟩ := worded
  unfold Shell.setVariable
  split
  · exact ⟨kept, declared, texts, words⟩
  · split
    · exact ⟨kept, declared, texts, words⟩
    · refine ⟨kept, ?_, ?_, words⟩
      · refine Eq.trans ?_ declared
        change List.map declaration (NameTable.update s.shell.vars name (Shell.assign text)) = _
        unfold NameTable.update
        rw [List.map_map]
        congr 1
        funext entry
        dsimp only [Function.comp]
        split <;> rfl
      · intro entry member
        obtain ⟨old, there, rfl⟩ := List.mem_map.1 member
        split
        · exact word
        · exact texts old there

/-- A line that names a variable has a second word for it, if it has more than one. -/
theorem useVariable (worded : Worded folders (settings s)) (named : Host.meaning s.shell = .variable) : Worded folders
    (settings { s with shell := (s.shell.useVariable (s.shell.line.word 0) s.shell.line.count (s.shell.line.word 1)).2 }) := by
  unfold Shell.useVariable
  split
  · exact worded
  · split
    · exact worded
    · rename_i more
      have some : s.shell.line.words ≠ [] := by
        intro none
        unfold Host.meaning at named
        rw [none] at named
        cases named
      have count : s.shell.line.count ≠ 1 := by simpa using more
      have counted : 0 < s.shell.line.count := List.length_pos_iff.2 some
      have member : s.shell.line.word 1 ∈ s.shell.line.words := Line.word_mem (by omega)
      exact worded.setVariable _ (worded.words _ member)

end Worded

/-- An action after which the variables are still so, however it ends. -/
abbrev Abides {α : Type} (folders : SearchPath) (act : Act Session α) : Prop :=
  Act.Upholds (fun s => Worded folders (settings s)) act

namespace Abides

variable {folders : SearchPath} {α : Type}

theorem of_unset {act : Act Session α} (unset : Unset act) : Abides folders act := .of_keeps unset

theorem of_beside {act : Act Session α} (beside : Beside act) : Abides folders act := of_unset (.of_beside beside)

theorem runSet : Abides folders (Host.onShell Shell.runSet : Act Session Unit) := by
  intro s worded
  change Worded folders (settings { s with shell := s.shell.runSet })
  unfold Shell.runSet
  split
  · exact worded
  · rename_i three
    have three : s.shell.line.count = 3 := by simpa using three
    have member : s.shell.line.word 2 ∈ s.shell.line.words := Line.word_mem (by omega)
    exact worded.setVariable _ (worded.words _ member)

theorem runBuiltin (command : Builtin) : Abides folders (Host.onShell (Shell.runBuiltin command) : Act Session Unit) := by
  by_cases set : command = .setVariable
  · subst set
    exact runSet
  · exact of_unset (.runBuiltin set)

theorem ifFromPlayer {act : Act Session Unit} (abides : Abides folders act) : Abides folders (ifFromPlayer act) := by
  refine .bind (of_unset fun _ => rfl) fun given => ?_
  split
  · exact abides
  · exact of_unset (.pure _)

section
variable {run : Text → Source → Act Session Unit} (runs : ∀ text source, Abides folders (run text source))
include runs

theorem record : Abides folders (record run) := by
  have begins (line : Line) (path : Path) : Abides folders (if 2 < line.count then (do
      run ("map " ++ line.word 2) .player
      Client.beginRecording path (trackAsked line))
      else Client.beginRecording path (trackAsked line)) := by
    split
    · exact .bind (runs _ _) fun _ => of_beside (.beginRecording _ _)
    · exact of_beside (.beginRecording _ _)
  refine .bind (of_unset fun _ => rfl) fun line => .bind (of_unset fun _ => rfl) fun c => ?_
  split
  · exact of_unset (.print _)
  · dsimp only
    split
    · exact .bind (of_unset (.print _)) fun _ => begins line _
    · exact begins line _

theorem perform (command : ClientCommand) : Abides folders (perform run command) := by
  by_cases recorded : command = .record
  · subst recorded
    exact ifFromPlayer (record runs)
  · exact of_unset (.perform recorded)

theorem runProbe (kind : Probe) : Abides folders (Host.runProbe run kind : Act Session Unit) := by
  cases kind with
  | report => exact of_unset (.onShell fun _ => rfl)
  | fail => exact of_unset (.throw _)
  | queue => exact of_unset (.insertText fun shell => shell.line.tail ++ ['\n'])
  | relay => exact .get_bind fun _ => runs _ _
  | forget =>
    have forgotten (shell : Shell ClientCommand) (name : Text) :
        ((shell.removeCommand name).vars, (shell.removeCommand name).line) = (shell.vars, shell.line) := by
      unfold Shell.removeCommand
      split <;> rfl
    exact of_unset (.onShell fun shell => forgotten shell (shell.line.word 1))

theorem runAction (action : Action ClientCommand) : Abides folders (Host.runAction run action : Act Session Unit) := by
  cases action with
  | builtin command => exact runBuiltin command
  | script => exact of_unset .runScript
  | forward => exact of_unset .forwardLine
  | probe kind => exact runProbe runs kind
  | own command => exact perform runs command

end

theorem runLineWithin (depth : Nat) (text : Text) (source : Source) :
    Abides folders (Host.runLineWithin depth text source : Act Session Unit) := by
  induction depth generalizing text source with
  | zero => exact of_unset (.throw _)
  | succ depth ih =>
    intro s worded
    have worded := worded.accept text source
    rw [Host.runLineWithin_succ]
    rcases named : Host.meaning (s.shell.accept text source) with _ | action | value | _ | _
    · exact worded
    · exact runAction ih action _ worded
    · exact of_unset (.expand value) _ worded
    · exact worded.useVariable named
    · exact of_unset .runUnknown _ worded

theorem runLine (text : Text) (source : Source) : Abides folders (Host.runLine text source : Act Session Unit) :=
  runLineWithin _ text source

theorem round : Abides folders (Host.round : Act Session Bool) := by
  have asked : Unset (Host.askShell Shell.nextLine : Act Session (Option Text)) := by
    intro s
    unfold Host.askShell Shell.nextLine
    dsimp only
    split <;> rfl
  refine .bind (of_unset asked) fun line => ?_
  split
  · exact of_unset (.pure _)
  · split
    · exact of_unset (.pure _)
    · refine .bind (runLine _ _) fun _ => .get_bind fun t => ?_
      split
      · exact .bind (of_unset (.onShell fun _ => rfl)) fun _ => of_unset (.pure _)
      · exact of_unset (.pure _)

theorem runPending (budget : Nat) : Abides folders (Host.runPending budget : Act Session Unit) := by
  induction budget with
  | zero =>
    refine .get_bind fun s => ?_
    split
    · exact of_unset (.pure _)
    · exact of_unset (.throw _)
  | succ budget ih =>
    rw [Host.runPending_succ]
    refine .bind round fun more => ?_
    split
    · exact ih
    · exact of_unset (.pure _)

theorem tick : Abides folders (Host.tick : Act Session Unit) :=
  .bind (of_unset (.onShell fun _ => rfl)) fun _ => runPending _

theorem frame (seconds : Double) : Abides folders (frame seconds) := by
  have counted : Unset (Client.change fun c => { c with frames := c.frames + 1 }) := .change fun _ => rfl
  have served : Unset (do
      if (← ask).connected then
        Client.sendCommands
        Client.change fun c => { c with view.oldTime := c.view.time, view.time := c.view.time.add seconds }
        Client.readServer
      Client.change fun c => { c with frames := c.frames + 1 }) := by
    apply Act.Keeps.ask_bind
    intro c
    dsimp only
    split
    · refine .bind Unset.sendCommands fun _ => .bind (Unset.change fun _ => rfl) fun _ => ?_
      exact .bind (.ask_bind fun _ => Unset.readWithin _) fun _ => counted
    · exact counted
  unfold Client.frame
  refine .bind (of_unset (.change fun _ => rfl)) fun _ => .bind (of_unset fun _ => rfl) fun c => ?_
  refine .bind (of_unset (.change fun _ => rfl)) fun _ => .bind tick fun _ => .bind (of_unset fun _ => rfl) fun c => ?_
  dsimp only
  split
  · exact .bind (of_unset .checkConnection) fun _ => of_unset served
  · exact of_unset served

theorem turn (turn : Turn) : Abides folders turn.act := by
  cases turn with
  | enter text => exact of_unset (.addText _)
  | run text source => exact runLine text source
  | frame seconds => exact frame seconds
  | shutDown => exact of_unset .shutDown

theorem inputs (inputs : List Input) : Abides folders (Input.states inputs) := by
  induction inputs with
  | nil => exact of_unset (.pure _)
  | cons input rest ih =>
    cases input with
    | host turn => exact .bind (Abides.turn turn) fun _ => .get_bind fun _ => .bind ih fun _ => of_unset (.pure _)
    | happen happening => exact .bind (of_unset (.change fun _ => rfl)) fun _ => ih

end Abides

end GameHost.Client
