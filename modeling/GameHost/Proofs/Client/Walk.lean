import GameHost.Proofs.Client.Stride
import GameHost.Proofs.Shell.Line
import GameHost.Proofs.Shell.Round

/-!
Every turn of the host runs by strides, and so by moves: commands, messages, frames and shutting down.
-/
namespace GameHost.Client
open GameHost.Message (Order)
open GameHost.Network (Socket Driver)

namespace Paces

variable {s : Session} {α : Type}

theorem exchange (net : Driver) (request : Act Driver α) : Paces s (exchange net request) :=
  after (.within fun _ _ => rfl) fun _ _ _ => bind saveTape fun _ _ _ => of_plain (.pure _)

theorem checkConnection : Paces s checkConnection := by
  unfold Client.checkConnection
  apply ask_bind
  split
  · rename_i quiet _
    apply bind (exchange _ _)
    intro answer m ran
    split
    · exact of_plain (.pure _)
    · intro _
      have demo : (core m).demo = (core s).demo := by rw [(exchange_taped ran).elsewhere]
      have quiet : m.world.playing = false := (congrArg Demo.Activity.isPlaying demo).trans quiet
      exact Told.single (Spared.stride (.of_quiet quiet rfl) ⟨.accept quiet rfl, rfl⟩) rfl
  · exact of_plain (.pure _)

theorem gameError (message : Text) : Paces s (gameError message) :=
  after (.print _) fun _ _ _ => after (.change fun _ => rfl) fun _ _ _ => disconnect

theorem endGame : Paces s endGame := bind disconnect fun _ _ _ => of_plain .queueNextDemo

theorem sendCommands : Paces s sendCommands := by
  unfold Client.sendCommands
  apply ask_bind
  split
  · exact of_plain (.pure _)
  · split
    · exact of_plain (.bind (Plain.print _) fun _ => Plain.change fun _ => rfl)
    · split
      · apply bind (exchange _ _)
        intro ready _ _
        split
        · apply ask_bind
          dsimp only
          apply bind (exchange _ _)
          intro result _ _
          split
          · exact gameError _
          · exact of_plain (.change fun _ => rfl)
        · exact of_plain (.pure _)
      · exact of_plain (.pure _)

theorem play : Paces s play := by
  apply after (.demoNamed _)
  intro named _ _
  split
  · exact bind (playDemo _) fun _ _ _ => of_plain (.pure _)
  · exact of_plain (.pure _)

theorem timeDemo : Paces s timeDemo := by
  apply after (.demoNamed _)
  intro named m _
  split
  · apply bind (playDemo _)
    intro opened t ran
    split
    · rename_i yes
      intro _
      cases played_of_ok ran with
      | missing => cases yes
      | opened _ now _ =>
        have playing : (core t).demo.isPlaying = true := by rw [now]; rfl
        exact Told.single (.aside ⟨.timing playing rfl, rfl⟩ rfl fun _ => rfl) rfl
    · exact of_plain (.pure _)
  · exact of_plain (.pure _)

theorem startDemos : Paces s startDemos := by
  have loop (demos : List Text) : Plain (do
      Client.print (Text.ofNat demos.length ++ " demo(s) in loop\n")
      Client.change fun c => { c with demos := demos.map (List.take Client.loopNameLimit) }
      let c ← ask
      if c.nextDemo != -1 && !c.playing then
        Client.change fun c => { c with nextDemo := 0 }
        Client.queueNextDemo
      else Client.change fun c => { c with nextDemo := -1 }) := by
    refine .bind (Plain.print _) fun _ => .bind (Plain.change fun _ => rfl) fun _ => .ask_bind fun c => ?_
    split
    · exact .bind (Plain.change fun _ => rfl) fun _ => Plain.queueNextDemo
    · exact Plain.change fun _ => rfl
  refine of_plain (.line_bind fun line => ?_)
  dsimp only
  split
  · exact .bind (Plain.print _) fun _ => loop _
  · exact loop _

theorem resumeDemos : Paces s resumeDemos :=
  after (.change fun _ => rfl) fun _ _ _ => bind disconnect fun _ _ _ => of_plain .queueNextDemo

theorem stopDemo : Paces s stopDemo := by
  apply ask_bind
  split
  · exact bind stopPlayback fun _ _ _ => disconnect
  · exact of_plain (.pure _)

theorem ifFromPlayer {act : Act Session Unit} (paces : ∀ t, Paces t act) : Paces s (ifFromPlayer act) := by
  apply after .fromPlayer
  intro given t _
  split
  · exact paces t
  · exact of_plain (.pure _)

end Paces

/-- A way to run further lines that runs by strides, and does nothing with those that start a map. -/
structure Runs (run : Text → Source → Act Session Unit) : Prop where
  paces : ∀ text source s, Paces s (run text source)
  maps : ∀ word s, Ready s → core (Act.final (run ("map " ++ word) .player s)) = core s

theorem recording_of_core {s t : Session} (same : core t = core s) : t.world.recording = s.world.recording :=
  congrArg (fun c : Core => c.demo.isRecording) same

/-- A map that is named is started before the recording begins, and does not begin another. -/
theorem Paces.record {run : Text → Source → Act Session Unit} (runs : Runs run) {s : Session} : Paces s (record run) := by
  unfold Client.record
  refine line_bind (ask_bind ?_)
  split
  · exact of_plain (.print _)
  · rename_i allowed
    have quiet : s.world.recording = false := by
      unfold recordRefusal? at allowed
      repeat' split at allowed
      all_goals simp_all
    have begins (m : Session) (same : core m = core s) (path : Path) (track : Int32) :
        Paces m (Client.beginRecording path track) :=
      beginRecording path track ((recording_of_core same).trans quiet)
    have rest (m : Session) (same : core m = core s) (path : Path) : Paces m (if 2 < s.shell.line.count then (do
        run ("map " ++ s.shell.line.word 2) .player
        Client.beginRecording path (trackAsked s.shell.line))
        else Client.beginRecording path (trackAsked s.shell.line)) := by
      split
      · intro ready
        refine bind (runs.paces _ _ m) (fun _ t ran => ?_) ready
        have around := runs.maps (s.shell.line.word 2) m ready
        rw [ran] at around
        exact begins t (around.trans same) _ _
      · exact begins m same _ _
    dsimp only
    split
    · exact after (.print _) fun _ m same => rest m same _
    · exact rest s rfl _

theorem plain_map : Token.PlainName "map".toList :=
  ⟨⟨'m', ['a', 'p'], rfl, by decide, by decide⟩, List.all_eq_true.1 (by decide), by decide⟩

theorem map_means_no_command (word : Text) {s : Shell ClientCommand} (unknown : NameTable.get? s.commands "map".toList = none)
    (action : Action ClientCommand) : Host.meaning (s.accept ("map " ++ word) .player) ≠ .command action := by
  obtain ⟨later, words⟩ : ∃ later, (s.accept ("map " ++ word) .player).line.words = "map".toList :: later :=
    Line.words_of_plain plain_map word
  have unknown : NameTable.get? (s.accept ("map " ++ word) .player).commands "map".toList = none := unknown
  unfold Host.meaning
  rw [words]
  simp only [unknown]
  repeat' split
  all_goals simp

theorem map_names_no_command (word : Text) {s : Session} (ready : Ready s) (action : Action ClientCommand) :
    Host.meaning (s.shell.accept ("map " ++ word) .player) ≠ .command action := by
  refine map_means_no_command word ?_ action
  rw [show s.shell.commands = commandTable from ready]
  decide

theorem still_runLineWithin (depth : Nat) (text : Text) (source : Source) {s : Session}
    (idle : ∀ action, Host.meaning (s.shell.accept text source) ≠ .command action) :
    still (Act.final (Host.runLineWithin depth text source s)) = still s := by
  cases depth with
  | zero => rfl
  | succ depth =>
    rw [Host.runLineWithin_succ]
    refine (?_ : Plain _) { s with shell := s.shell.accept text source }
    unfold Host.runMeaning
    split
    · exact .pure _
    · rename_i action known
      exact absurd known (idle action)
    · exact .onShell (Host.commands_expand _)
    · exact .onShell fun _ => Shell.commands_useVariable ..
    · exact .runUnknown

theorem maps_runLineWithin (depth : Nat) (word : Text) {s : Session} (ready : Ready s) :
    core (Act.final (Host.runLineWithin depth ("map " ++ word) .player s)) = core s :=
  core_of_still (still_runLineWithin depth _ _ (map_names_no_command word ready))

theorem Paces.perform {run : Text → Source → Act Session Unit} (runs : Runs run) (command : ClientCommand)
    {s : Session} : Paces s (perform run command) := by
  cases command with
  | disconnect => exact disconnect
  | quit => exact ifFromPlayer fun _ => of_plain (.change fun _ => rfl)
  | writeConfig => exact ifFromPlayer fun _ => writeConfig
  | record => exact ifFromPlayer fun _ => record runs
  | stop => exact ifFromPlayer fun _ => stopRecording
  | play => exact ifFromPlayer fun _ => play
  | timeDemo => exact ifFromPlayer fun _ => timeDemo
  | startDemos => exact startDemos
  | demos => exact resumeDemos
  | stopDemo => exact stopDemo

theorem not_probe {name : Text} {action : Action ClientCommand} (named : NameTable.get? commandTable name = some action)
    (kind : Probe) : action ≠ .probe kind := by
  have fine : ∀ entry ∈ commandTable, entry.2 ≠ .probe kind := by cases kind <;> decide
  obtain ⟨entry, found, rfl⟩ := Option.map_eq_some_iff.1 named
  exact fine entry (List.mem_of_find?_eq_some found)

theorem named_of_meaning {s : Shell ClientCommand} {action : Action ClientCommand} (means : Host.meaning s = .command action) :
    ∃ name, NameTable.get? s.commands name = some action := by
  unfold Host.meaning at means
  repeat' split at means
  all_goals cases means
  rename_i named
  exact ⟨_, named⟩

theorem not_probe_of_meaning {s : Session} {action : Action ClientCommand} (ready : Ready s)
    (known : Host.meaning s.shell = .command action) (kind : Probe) : action ≠ .probe kind := by
  obtain ⟨name, named⟩ := named_of_meaning known
  rw [show s.shell.commands = commandTable from ready] at named
  exact not_probe named kind

theorem Paces.runAction {run : Text → Source → Act Session Unit} (runs : Runs run) {s : Session}
    {action : Action ClientCommand} (known : ∀ kind, action ≠ .probe kind) :
    Paces s (Host.runAction run action : Act Session Unit) := by
  cases action with
  | builtin command => exact of_plain (.onShell (Shell.commands_runBuiltin command))
  | script => exact of_plain .runScript
  | forward => exact of_plain .hostForwardLine
  | probe kind => exact absurd rfl (known kind)
  | own command => exact perform runs command

theorem runs_runLineWithin (depth : Nat) : Runs (Host.runLineWithin depth : Text → Source → Act Session Unit) := by
  refine ⟨?_, fun word s ready => maps_runLineWithin depth word ready⟩
  induction depth with
  | zero => exact fun text source s => .of_plain (.throw _)
  | succ depth ih =>
    intro text source s ready
    have runs : Runs (Host.runLineWithin depth : Text → Source → Act Session Unit) :=
      ⟨ih, fun word s ready => maps_runLineWithin depth word ready⟩
    refine Paces.after (.onShell fun _ => rfl) (fun _ m same => .get_bind ?_) ready
    have ready : Ready m := (congrArg Core.commands same).trans ready
    split
    · exact .of_plain (.pure _)
    · rename_i action known
      exact .runAction runs (not_probe_of_meaning ready known)
    · exact .of_plain (.onShell (Host.commands_expand _))
    · exact .of_plain (.onShell fun _ => Shell.commands_useVariable ..)
    · exact .of_plain .runUnknown

/-- Send what there is to the server. The result is whether its messages are read then. -/
def serve (seconds : Double) : Act Session Bool := do
  if (← ask).connected then
    sendCommands
    change fun c => { c with view.oldTime := c.view.time, view.time := c.view.time.add seconds }
    return true
  else return false

/-- A frame up to where messages are read. The result is whether they are. -/
def approach (seconds : Double) : Act Session Bool := do
  change fun c => { c with clock := c.clock.add seconds }
  tellTime (← ask).clock
  Host.tick
  if !(← ask).connected then checkConnection
  serve seconds

theorem frame_eq (seconds : Double) : frame seconds = (do
    if ← approach seconds then readServer
    change fun c => { c with frames := c.frames + 1 }) := by
  have served : (do
      if (← ask).connected then
        sendCommands
        change fun c => { c with view.oldTime := c.view.time, view.time := c.view.time.add seconds }
        readServer
      change fun c => { c with frames := c.frames + 1 }) = (do
      if ← serve seconds then readServer
      change fun c => { c with frames := c.frames + 1 }) := by
    unfold serve
    rw [bind_assoc]
    refine congrArg _ (funext fun c => ?_)
    split
    · simp only [bind_assoc, pure_bind, if_true]
    · simp only [pure_bind, Bool.false_eq_true, if_false]
  unfold frame approach
  dsimp only
  rw [served]
  simp only [bind_assoc]
  refine congrArg _ (funext fun _ => congrArg _ (funext fun _ => congrArg _ (funext fun _ => ?_)))
  refine congrArg _ (funext fun _ => congrArg _ (funext fun c => ?_))
  split
  · rw [bind_assoc]
  · rfl

namespace Paces

variable {s : Session}

theorem runLine (text : Text) (source : Source) : Paces s (Host.runLine text source : Act Session Unit) :=
  (runs_runLineWithin _).paces text source s

theorem round : Paces s (Host.round : Act Session Bool) := by
  have asked : Plain (Host.askShell Shell.nextLine : Act Session (Option Text)) := by
    intro s
    exact congrArg (fun commands => ({ core s with commands }, (still s).2)) s.shell.commands_nextLine
  apply after asked
  intro line m _
  split
  · exact of_plain (.pure _)
  · split
    · exact of_plain (.pure _)
    · refine bind (runLine _ _) fun _ t _ => get_bind ?_
      split
      · exact after (.onShell fun _ => rfl) fun _ _ _ => of_plain (.pure _)
      · exact of_plain (.pure _)

theorem runPending (budget : Nat) : Paces s (Host.runPending budget : Act Session Unit) := by
  induction budget generalizing s with
  | zero =>
    apply get_bind
    split
    · exact of_plain (.pure _)
    · exact of_plain (.throw _)
  | succ budget ih =>
    rw [Host.runPending_succ]
    apply bind round
    intro more m _
    split
    · exact ih
    · exact of_plain (.pure _)

theorem tick : Paces s (Host.tick : Act Session Unit) :=
  after (.onShell fun _ => rfl) fun _ _ _ => runPending _

theorem obey (orders : List Order) : Paces s (obey orders) := by
  induction orders generalizing s with
  | nil => exact of_plain (.pure _)
  | cons order rest ih =>
    cases order with
    | nothing => exact ih
    | time seconds => exact after (.change fun _ => rfl) fun _ _ _ => ih
    | print text => exact after (.print _) fun _ _ _ => ih
    | run text => exact after (.onShell (Shell.commands_addText _)) fun _ _ _ => ih
    | signon number =>
      apply ask_bind
      split
      · exact after (.change fun _ => rfl) fun _ _ _ => ih
      · exact gameError _
    | leave => exact endGame
    | illegible => exact gameError _
    | broken => exact gameError _

theorem serve (seconds : Double) : Paces s (serve seconds) := by
  apply ask_bind
  split
  · exact bind sendCommands fun _ _ _ => after (.change fun _ => rfl) fun _ _ _ => of_plain (.pure _)
  · exact of_plain (.pure _)

theorem approach (seconds : Double) : Paces s (approach seconds) := by
  refine after (.change fun _ => rfl) fun _ _ _ => ask_bind (after (.change fun _ => rfl) fun _ _ _ => ?_)
  refine bind tick fun _ m _ => ask_bind ?_
  dsimp only
  split
  · exact bind checkConnection fun _ _ _ => serve seconds
  · exact serve seconds

theorem shutDown : Paces s shutDown := by
  have left {t : Session} : Paces t (do
      Client.disconnect
      Client.writeConfig
      Client.finishTape) :=
    bind disconnect fun _ _ _ => bind writeConfig fun _ _ _ => finishTape
  unfold Client.shutDown
  apply ask_bind
  dsimp only
  split
  · exact bind stopRecording fun _ _ _ => left
  · exact left

end Paces

/-- The looks for a message in a reading of so many at most. -/
def looksWithin : Nat → Session → List Look
  | 0, _ => []
  | fuel + 1, s => onward (fun kind t => (kind, t) ::
      if kind == -1 then []
      else if kind != 0 then onward (fun _ u => if u.world.connected then looksWithin fuel u else []) (obeyMessage t)
      else []) (nextMessage s)

/-- The looks in a turn. -/
def looksIn : Turn → Session → List Look
  | .frame seconds, s =>
    onward (fun reads m => if reads then looksWithin (backlog m.world + 1) m else []) (approach seconds s)
  | _, _ => []

/-- The looks while inputs come. -/
def looksAlong : List Input → Session → List Look
  | [], _ => []
  | .host turn :: rest, s => looksIn turn s ++ onward (fun _ t => looksAlong rest t) (turn.act s)
  | .happen happening :: rest, s =>
    looksAlong rest { s with world := { s.world with net := s.world.net.map (Driver.onLoopback happening.change) } }

namespace Told

variable {s : Session}

theorem readWithin (fuel : Nat) (ready : Ready s) : Told s (looksWithin fuel s) (readWithin fuel s) := by
  induction fuel generalizing s with
  | zero => exact .error .here rfl (.inl (.around rfl))
  | succ fuel ih =>
    unfold Client.readWithin looksWithin
    cases ran : nextMessage s with
    | error fault t =>
      rw [Act.bind_of_error ran]
      exact .error .here rfl (.inr ran)
    | ok kind m =>
      rw [Act.bind_of_ok ran]
      have there : Ready m := ((Stride.asked ran).deeds ready).moves.ready ready
      have obeyed : Told m [] (obeyMessage m) := Paces.obey _ there
      refine look ran ?_
      by_cases lost : (kind == -1) = true
      · rw [if_pos lost, if_pos lost]
        exact Paces.gameError _ there
      rw [if_neg lost, if_neg lost]
      by_cases some : (kind != 0) = true
      · rw [if_pos some, if_pos some]
        refine obeyed.bind fun _ t done => ?_
        rw [done] at obeyed
        rw [ask_at]
        split
        · exact ih (obeyed.ready there)
        · exact Paces.of_plain (.pure _) (obeyed.ready there)
      · rw [if_neg some, if_neg some]
        exact Paces.of_plain (.pure _) there

theorem frame (seconds : Double) (ready : Ready s) : Told s (looksIn (.frame seconds) s) (Client.frame seconds s) := by
  rw [frame_eq]
  refine (Paces.approach seconds ready).bind fun reads m ran => ?_
  have there : Ready m := (ran ▸ Paces.approach seconds ready).ready ready
  have counted {t : Session} : Paces t (change fun c => { c with frames := c.frames + 1 }) :=
    .of_plain (.change fun _ => rfl)
  cases reads with
  | false => exact counted there
  | true =>
    have read : Told m (looksWithin (backlog m.world + 1) m) (readServer m) := readWithin _ there
    exact read.bind_paces there fun _ _ _ => counted

theorem turn (turn : Turn) (ready : Ready s) : Told s (looksIn turn s) (turn.act s) := by
  cases turn with
  | enter text => exact Paces.of_plain (.onShell (Shell.commands_addText _)) ready
  | run text source => exact Paces.runLine text source ready
  | frame seconds => exact frame seconds ready
  | shutDown => exact Paces.shutDown ready

theorem inputs (inputs : List Input) (ready : Ready s) : Told s (looksAlong inputs s) (Input.states inputs s) := by
  induction inputs generalizing s with
  | nil => exact Paces.of_plain (.pure _) ready
  | cons input rest ih =>
    cases input with
    | host turn =>
      refine (Told.turn turn ready).bind fun _ m ran => ?_
      have there : Ready m := (ran ▸ Told.turn turn ready).ready ready
      exact (ih there).bind_paces there fun _ _ _ => .of_plain (.pure _)
    | happen happening =>
      let changed : Session :=
        { s with world := { s.world with net := s.world.net.map (Driver.onLoopback happening.change) } }
      have strides : Strides s [(.other, changed)] changed :=
        .single (.aside (.of_still rfl) rfl fun _ => rfl)
      exact after strides (ih (s := changed) ready)

end Told

namespace Walks

variable {s : Session}

theorem round : Walks s (Host.round : Act Session Bool) := Paces.round.walks

theorem turn (turn : Turn) : Walks s turn.act := fun ready => (Told.turn turn ready).conduct ready

theorem inputs (inputs : List Input) : Walks s (Input.states inputs) := fun ready => (Told.inputs inputs ready).conduct ready

theorem states (inputs : List Input) (ready : Ready s) : Course s (Input.states inputs s) :=
  (Walks.inputs inputs ready).course

end Walks

/-- A session of the client's shell in which nothing has happened yet, with any files and any driver. -/
structure Fresh (s : Session) : Prop where
  ready : Ready s
  idle : s.world.demo = .idle
  connected : s.world.connected = false
  socket : s.world.socket = none
  timed : s.world.timing.active = false

theorem fresh_newSession (folders : SearchPath) (disk : Disk) (console : Console) :
    Fresh (newSession folders disk console) :=
  ⟨ready_newSession folders disk console, rfl, rfl, rfl, rfl⟩

def demoStart : Session :=
  Client.newSession (SearchPath.ofBase "/")
    ⟨[(["base".toList], .folder), (["base".toList, "a.dem".toList], .file (Packed.ofBytes [45, 49, 10]))], []⟩
    Console.captured

theorem fresh_demoStart : Fresh demoStart := by
  unfold demoStart
  exact fresh_newSession _ _ _

end GameHost.Client
