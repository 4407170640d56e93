import GameHost.Proofs.Client.Gauges
import GameHost.Proofs.Client.Linked
import GameHost.Proofs.Shell.Batches

/-!
The bounds that hold in every state of the client. The place in the demo loop is kept within the loop by the function
that queues its next demo, wherever it stood before; the rest is kept by every action on its own.
-/
namespace GameHost
open GameHost.Message (Buffer)

namespace Message

theorem Writing.capacity (writing : Writing) : Act.Keeps Buffer.capacity writing.act :=
  fun b => (writing.added b).steady.capacity

theorem capacity_strict (capacity : Nat) : (Buffer.strict capacity).capacity = capacity := by
  simp only [Buffer.strict, Buffer.capacity, Buffer.size, Buffer.free, show Packed.empty.size = 0 from rfl, Nat.zero_add]

theorem capacity_overflowing (capacity : Nat) : (Buffer.overflowing capacity).capacity = capacity :=
  capacity_strict capacity

end Message

namespace Shell

variable {α : Type}

theorem short_insertText (text : Text) {s : Shell α} (short : Text.size s.pending < pendingLimit) :
    Text.size (s.insertText text).pending < pendingLimit := by
  unfold insertText
  split
  · rename_i fits
    simp only [hasRoom, decide_eq_true_eq] at fits
    rw [Text.size_append]
    omega
  · exact short

theorem short_addText (text : Text) {s : Shell α} (short : Text.size s.pending < pendingLimit) :
    Text.size (s.addText text).pending < pendingLimit := by
  unfold addText
  split
  · rename_i fits
    simp only [hasRoom, decide_eq_true_eq] at fits
    rw [Text.size_append]
    omega
  · exact short

theorem short_expand (value : Text) {s : Shell α} (short : Text.size s.pending < pendingLimit) :
    Text.size (Host.expand value s).pending < pendingLimit := by
  unfold Host.expand
  dsimp only
  split
  · exact short
  · exact short_insertText _ short

theorem short_runBuiltin (command : Builtin) {s : Shell α} (short : Text.size s.pending < pendingLimit) :
    Text.size (s.runBuiltin command).pending < pendingLimit := by
  by_cases other : command = .runArguments
  · simp only [other, runBuiltin, runArguments]
    split
    · exact short
    · split
      · exact short
      · exact short_insertText _ short
  · rw [pending_runBuiltin other]
    exact short

theorem short_nextLine {s : Shell α} (short : Text.size s.pending < pendingLimit) :
    Text.size s.nextLine.2.pending < pendingLimit := by
  unfold nextLine
  split
  · exact short
  · exact Nat.lt_of_le_of_lt (Text.size_le_of_suffix (splitLine_suffix false s.pending)) short

end Shell

namespace Client
open GameHost.Message (Order)
open GameHost.Network (Socket Driver)
open GameHost.Replay (Happening)

/-- The bounds without that on the place in the demo loop. -/
structure Loose (g : Gauges) : Prop where
  signon : 0 ≤ g.signon ∧ g.signon ≤ signons
  loop : g.demos.length ≤ loopLimit
  names : ∀ name ∈ g.demos, name.length ≤ loopNameLimit
  pending : Text.size g.pending < Shell.pendingLimit
  incoming : g.incoming.capacity = incomingLimit
  outgoing : g.outgoing.capacity = outgoingLimit

structure Metered (g : Gauges) : Prop extends Loose g where
  place : g.nextDemo = -1 ∨ 0 ≤ g.nextDemo ∧ g.nextDemo ≤ g.demos.length

/-- An action that keeps within the bounds, however it ends. -/
abbrev Stays {α : Type} (act : Act Session α) : Prop := Act.Upholds (fun s => Metered (gauges s)) act

theorem Loose.unsigned {g : Gauges} (loose : Loose g) : Loose { g with signon := 0 } :=
  { loose with signon := ⟨Int.le_refl 0, show (0 : Int) ≤ signons by decide⟩ }

theorem Metered.unsigned {g : Gauges} (metered : Metered g) : Metered { g with signon := 0 } :=
  { metered with toLoose := metered.toLoose.unsigned }

/-- The demo that is queued next is always one of the loop. -/
theorem queueNextDemo_in_range {s : Session} (on : s.world.nextDemo ≠ -1) (some : s.world.demos ≠ []) :
    ∃ (place : Nat) (there : place < s.world.demos.length), queueNextDemo s = .ok () { s with
      shell := s.shell.insertText ("play " ++ s.world.demos[place] ++ "\n")
      world := { s.world with nextDemo := place + 1 } } := by
  let place := if 0 ≤ s.world.nextDemo && s.world.nextDemo < s.world.demos.length then s.world.nextDemo.toNat else 0
  have length : 0 < s.world.demos.length := List.length_pos_iff.2 some
  have there : place < s.world.demos.length := by
    simp only [place]
    split
    · rename_i inside
      simp only [Bool.and_eq_true, decide_eq_true_eq] at inside
      omega
    · exact length
  refine ⟨place, there, ?_⟩
  have named : s.world.demos.getD place [] = s.world.demos[place] := (List.getElem_eq_getD []).symm
  unfold queueNextDemo
  rw [ask_at, if_pos (by simpa using on), if_neg (by simpa using some), ← named]
  rfl

theorem metered_queueNextDemo {s : Session} (loose : Loose (gauges s)) :
    Metered (gauges (Act.final (queueNextDemo s))) := by
  by_cases on : s.world.nextDemo = -1
  · have stopped : queueNextDemo s = .ok () s := by
      unfold queueNextDemo
      rw [ask_at, if_neg (by simp [on])]
      rfl
    rw [stopped]
    exact ⟨loose, .inl on⟩
  by_cases none : s.world.demos = []
  · have told : ∃ shell, queueNextDemo s = .ok () ⟨shell, { s.world with nextDemo := -1 }⟩ ∧
        shell.pending = s.shell.pending := by
      refine ⟨s.shell.print "No demos listed with startdemos\n", ?_, rfl⟩
      unfold queueNextDemo
      rw [ask_at, if_pos (by simpa using on), if_pos (by simp [none])]
      rfl
    obtain ⟨shell, ran, same⟩ := told
    rw [ran]
    exact ⟨{ loose with pending := by change Text.size shell.pending < _; rw [same]; exact loose.pending }, .inl rfl⟩
  · obtain ⟨place, there, ran⟩ := queueNextDemo_in_range on none
    rw [ran]
    refine ⟨{ loose with pending := Shell.short_insertText _ loose.pending }, .inr ?_⟩
    change (0 : Int) ≤ place + 1 ∧ (place : Int) + 1 ≤ s.world.demos.length
    omega

namespace Stays

variable {α : Type}

theorem of_level {act : Act Session α} (level : Level act) : Stays act := .of_keeps level

theorem of_confined {act : Act Session α} (confined : Confined act) : Stays act := of_level (.of_confined confined)

theorem ask_bind {next : Client → Act Session α} (each : ∀ c, Stays (next c)) : Stays (ask >>= next) :=
  fun s metered => each s.world s metered

theorem line_bind {next : Line → Act Session α} (each : ∀ line, Stays (next line)) : Stays (line >>= next) :=
  fun s metered => each s.shell.line s metered

theorem pure (a : α) : Stays (pure a : Act Session α) := of_level (.pure a)

theorem print (text : Text) : Stays (print text) := of_level (.print text)

theorem onShell {f : Shell ClientCommand → Shell ClientCommand}
    (short : ∀ {shell}, Text.size shell.pending < Shell.pendingLimit → Text.size (f shell).pending < Shell.pendingLimit) :
    Stays (Host.onShell f : Act Session Unit) :=
  fun _ metered => { metered with pending := short metered.pending }

theorem disconnect : Stays disconnect := by
  intro s metered
  rw [gauges_disconnect]
  exact metered.unsigned

theorem stopLoop : Stays (change fun c => { c with nextDemo := -1 }) := fun _ metered => ⟨{ metered.toLoose with }, .inl rfl⟩

theorem gameError (message : Text) : Stays (gameError message) :=
  .bind (print _) fun _ => .bind stopLoop fun _ => disconnect

theorem queueNextDemo : Stays queueNextDemo := fun _ metered => metered_queueNextDemo metered.toLoose

theorem endGame : Stays endGame := .bind disconnect fun _ => queueNextDemo

/-- The new loop may leave the old place outside until it is chosen anew. -/
theorem startDemos : Stays startDemos := by
  have loop (named : List Text) {s : Session} (metered : Metered (gauges s)) : Metered (gauges (Act.final ((do
      Client.print (Text.ofNat (named.take Client.loopLimit).length ++ " demo(s) in loop\n")
      Client.change fun c => { c with demos := (named.take Client.loopLimit).map (List.take Client.loopNameLimit) }
      let c ← ask
      if c.nextDemo != -1 && !c.playing then
        Client.change fun c => { c with nextDemo := 0 }
        Client.queueNextDemo
      else Client.change fun c => { c with nextDemo := -1 } : Act Session Unit) s))) := by
    let demos := (named.take Client.loopLimit).map (List.take Client.loopNameLimit)
    let shell := s.shell.print (Text.ofNat (named.take Client.loopLimit).length ++ " demo(s) in loop\n")
    have loose (nextDemo : Int) : Loose (gauges ⟨shell, { s.world with demos, nextDemo }⟩) := by
      refine { metered.toLoose with loop := ?_, names := ?_ }
      · change demos.length ≤ loopLimit
        rw [List.length_map, List.length_take]
        exact Nat.min_le_left _ _
      · intro name member
        obtain ⟨whole, _, rfl⟩ := List.mem_map.1 member
        exact List.length_take_le _ _
    rw [print_at]
    change Metered (gauges (Act.final ((if s.world.nextDemo != -1 && !s.world.playing then (do
        Client.change fun c => { c with nextDemo := 0 }
        Client.queueNextDemo : Act Session Unit)
        else Client.change fun c => { c with nextDemo := -1 }) ⟨shell, { s.world with demos }⟩)))
    split
    · exact metered_queueNextDemo (loose 0)
    · exact ⟨loose (-1), .inl rfl⟩
  apply line_bind
  intro line
  dsimp only
  split
  · exact .bind (print _) fun _ _ metered => loop _ metered
  · exact fun _ metered => loop _ metered

/-- A loop that is stopped goes on at its second place, whether or not there is one, until the next demo is queued. -/
theorem resumeDemos : Stays resumeDemos := by
  intro s metered
  let m : Session := { s with world := { s.world with nextDemo := if s.world.nextDemo == -1 then 1 else s.world.nextDemo } }
  obtain ⟨n, ran, _⟩ := disconnect_spec m
  have left := gauges_disconnect m
  rw [ran] at left
  have loose : Loose (gauges n) := by
    rw [show gauges n = _ from left]
    exact { metered.toLoose.unsigned with }
  have resumed : Client.resumeDemos s = Client.queueNextDemo n := Act.bind_of_ok ran
  rw [resumed]
  exact metered_queueNextDemo loose

theorem stopDemo : Stays stopDemo := by
  apply ask_bind
  intro c
  split
  · exact .bind (of_confined .stopPlayback) fun _ => disconnect
  · exact pure _

theorem within {σ : Type} {view : Client → σ} {replace : σ → Client → Client} {act : Act σ α}
    (each : ∀ s, Metered (gauges s) → Metered (gauges { s with world := replace (Act.final (act (view s.world))) s.world })) :
    Stays (within view replace act) := by
  intro s metered
  have now := each s metered
  change Metered (gauges (Act.final (Act.within _ _ act s)))
  unfold Act.within
  cases ran : act (view s.world) with
  | ok a part =>
    rw [ran] at now
    exact now
  | error fault part =>
    rw [ran] at now
    exact now

theorem exchange (net : Driver) (request : Act Driver α) : Stays (exchange net request) :=
  .bind (within fun _ metered => { metered with }) fun _ => .bind (of_confined .saveTape) fun _ => pure _

theorem receive (net : Driver) (socket : Socket) : Stays (receive net socket) := by
  refine .bind (within fun s metered => ?_) fun _ => .bind (of_confined .saveTape) fun _ => pure _
  exact { metered with incoming := (Driver.capacity_receive socket _ _).trans metered.incoming }

theorem forwardLine : Stays forwardLine := by
  have added (line : Line) : Act.Keeps Buffer.capacity (addCommand line) := by
    unfold addCommand
    refine .bind (Message.Writing.capacity (.byte textCommand)) fun _ => ?_
    have rest : Act.Keeps Buffer.capacity (if 1 < line.count then Buffer.append line.tail else Buffer.append ['\n']) := by
      split
      · exact Message.Writing.capacity (.append _)
      · exact Message.Writing.capacity (.append _)
    dsimp only
    split
    · exact .bind (Message.Writing.capacity (.append _)) fun _ => .bind (Message.Writing.capacity (.append _)) fun _ => rest
    · exact rest
  refine ask_bind fun c => line_bind fun line => ?_
  split
  · exact print _
  · split
    · exact within fun s metered => { metered with outgoing := (added line s.world.outgoing).trans metered.outgoing }
    · exact pure _

theorem checkConnection : Stays checkConnection := by
  apply ask_bind
  intro c
  split
  · refine .bind (exchange _ _) fun answer => ?_
    split
    · exact pure _
    · intro s metered
      exact { metered.unsigned with outgoing := (Buffer.capacity_clear _).trans metered.outgoing }
  · exact pure _

theorem sendCommands : Stays sendCommands := by
  have cleared : Stays (change fun c => { c with outgoing := c.outgoing.clear }) := fun s metered =>
    { metered with outgoing := (Buffer.capacity_clear _).trans metered.outgoing }
  apply ask_bind
  intro c
  split
  · exact pure _
  · split
    · exact .bind (print _) fun _ => cleared
    · split
      · refine .bind (exchange _ _) fun ready => ?_
        split
        · apply ask_bind
          intro c
          dsimp only
          refine .bind (exchange _ _) fun result => ?_
          split
          · exact gameError _
          · exact cleared
        · exact pure _
      · exact pure _

theorem playDemo (name : Text) : Stays (playDemo name) := by
  refine .bind disconnect fun _ => .bind (print _) fun _ => ask_bind fun c => ?_
  split
  · exact .bind (print _) fun _ => .bind stopLoop fun _ => pure _
  · refine .bind (of_level (.change fun _ => rfl)) fun _ => .bind (fun s metered => ?_) fun _ => pure _
    exact { metered.unsigned with }

theorem play : Stays play := by
  refine .bind (of_confined (.demoNamed _)) fun named => ?_
  split
  · exact .bind (playDemo _) fun _ => pure _
  · exact pure _

theorem timeDemo : Stays timeDemo := by
  refine .bind (of_confined (.demoNamed _)) fun named => ?_
  split
  · refine .bind (playDemo _) fun opened => ?_
    split
    · exact of_level (.change fun _ => rfl)
    · exact pure _
  · exact pure _

theorem demoMessage : Stays demoMessage := by
  apply ask_bind
  intro c
  refine .bind (of_level (.change fun _ => rfl)) fun _ => ?_
  dsimp only
  split
  · refine .bind (of_level (.change fun _ => rfl)) fun _ => ?_
    split
    · exact of_level (.throw _)
    · exact .bind (of_confined .stopPlayback) fun _ => pure _
    · refine .bind (within fun s metered => ?_) fun _ => .bind (of_level (.change fun _ => rfl)) fun _ => pure _
      exact { metered with incoming := (Buffer.capacity_fill _ _).trans metered.incoming }
  · exact pure _

theorem obey (orders : List Order) : Stays (obey orders) := by
  induction orders with
  | nil => exact pure _
  | cons order rest ih =>
    cases order with
    | nothing => exact ih
    | time seconds => exact .bind (of_level (.change fun _ => rfl)) fun _ => ih
    | print text => exact .bind (print _) fun _ => ih
    | run text => exact .bind (onShell (Shell.short_addText text)) fun _ => ih
    | signon number =>
      intro s metered
      change Metered (gauges (Act.final ((if signonInOrder number s.world.signon then (do
        Client.change fun c => { c with signon := number }
        Client.obey rest)
        else Client.gameError _) s)))
      split
      · rename_i inOrder
        simp only [signonInOrder, Bool.and_eq_true, decide_eq_true_eq] at inOrder
        have least := metered.signon.1
        change 0 ≤ s.world.signon at least
        have further : Metered (gauges { s with world := { s.world with signon := number } }) :=
          { metered with signon := ⟨show 0 ≤ number by omega, inOrder.2⟩ }
        exact ih _ further
      · exact gameError _ s metered
    | leave => exact endGame
    | illegible => exact gameError _
    | broken => exact gameError _

theorem networkMessage (socket : Socket) (fuel : Nat) : Stays (networkMessage socket fuel) := by
  induction fuel with
  | zero => exact of_level (.throw _)
  | succ fuel ih =>
    apply ask_bind
    intro c
    split
    · exact pure _
    · refine .bind (receive _ _) fun kind => ?_
      split
      · exact pure _
      · apply ask_bind
        intro c
        split
        · exact .bind (print _) fun _ => ih
        · exact .bind (of_confined .recordMessage) fun _ => pure _

theorem nextMessage : Stays nextMessage := by
  apply ask_bind
  intro c
  split
  · exact demoMessage
  · split
    · exact networkMessage _ _
    · exact pure _

theorem readWithin (fuel : Nat) : Stays (readWithin fuel) := by
  induction fuel with
  | zero => exact of_level (.throw _)
  | succ fuel ih =>
    refine .bind nextMessage fun kind => ?_
    split
    · exact gameError _
    · split
      · refine .bind (ask_bind fun _ => obey _) fun _ => ask_bind fun c => ?_
        split
        · exact ih
        · exact pure _
      · exact pure _

theorem hostForwardLine : Stays (Host.forwardLine : Act Session Unit) := by
  apply Act.Upholds.get_bind
  intro s
  split
  · exact forwardLine
  · exact pure _

theorem runUnknown : Stays (Host.runUnknown : Act Session Unit) := by
  apply Act.Upholds.get_bind
  intro s
  dsimp only
  split
  · exact forwardLine
  · exact print _

theorem runScript : Stays (Host.runScript : Act Session Unit) := by
  apply Act.Upholds.get_bind
  intro s
  split
  · exact print _
  · dsimp only
    split
    · exact .bind (print _) fun _ => onShell (Shell.short_insertText _)
    · exact print _

theorem ifFromPlayer {act : Act Session Unit} (stays : Stays act) : Stays (ifFromPlayer act) := by
  refine .bind (of_level fun _ => rfl) fun given => ?_
  split
  · exact stays
  · exact pure _

section
variable {run : Text → Source → Act Session Unit} (runs : ∀ text source, Stays (run text source))
include runs

theorem record : Stays (record run) := by
  have begins (line : Line) (path : Path) : Stays (if 2 < line.count then (do
      run ("map " ++ line.word 2) .player
      Client.beginRecording path (trackAsked line))
      else Client.beginRecording path (trackAsked line)) := by
    split
    · exact .bind (runs _ _) fun _ => of_confined (.beginRecording _ _)
    · exact of_confined (.beginRecording _ _)
  refine line_bind fun line => ask_bind fun c => ?_
  split
  · exact print _
  · dsimp only
    split
    · exact .bind (print _) fun _ => begins line _
    · exact begins line _

theorem perform (command : ClientCommand) : Stays (perform run command) := by
  cases command with
  | disconnect => exact disconnect
  | quit => exact ifFromPlayer fun _ metered => { metered with }
  | writeConfig => exact ifFromPlayer (of_confined .writeConfig)
  | record => exact ifFromPlayer (record runs)
  | stop => exact ifFromPlayer (of_confined .stopRecording)
  | play => exact ifFromPlayer play
  | timeDemo => exact ifFromPlayer timeDemo
  | startDemos => exact startDemos
  | demos => exact resumeDemos
  | stopDemo => exact stopDemo

theorem runProbe (kind : Probe) : Stays (Host.runProbe run kind : Act Session Unit) := by
  cases kind with
  | report => exact of_level (.onShell fun _ => rfl)
  | fail => exact of_level (.throw _)
  | queue => exact onShell fun {shell} => Shell.short_insertText (shell.line.tail ++ ['\n'])
  | relay => exact .get_bind fun _ => runs _ _
  | forget =>
    have forgotten (shell : Shell ClientCommand) (name : Text) : (shell.removeCommand name).pending = shell.pending := by
      unfold Shell.removeCommand
      split <;> rfl
    exact of_level (.onShell fun shell => forgotten shell (shell.line.word 1))

theorem runAction (action : Action ClientCommand) : Stays (Host.runAction run action : Act Session Unit) := by
  cases action with
  | builtin command => exact onShell (Shell.short_runBuiltin command)
  | script => exact runScript
  | forward => exact hostForwardLine
  | probe kind => exact runProbe runs kind
  | own command => exact perform runs command

end

theorem runLineWithin (depth : Nat) (text : Text) (source : Source) :
    Stays (Host.runLineWithin depth text source : Act Session Unit) := by
  induction depth generalizing text source with
  | zero => exact of_level (.throw _)
  | succ depth ih =>
    refine .bind (of_level (.onShell fun _ => rfl)) fun _ => .get_bind fun s => ?_
    split
    · exact pure _
    · exact runAction ih _
    · exact onShell (Shell.short_expand _)
    · exact of_level (.onShell fun _ => Shell.pending_useVariable ..)
    · exact runUnknown

theorem round : Stays (Host.round : Act Session Bool) := by
  have asked : Stays (Host.askShell Shell.nextLine : Act Session (Option Text)) :=
    fun s metered => { metered with pending := Shell.short_nextLine metered.pending }
  refine .bind asked fun line => ?_
  split
  · exact pure _
  · split
    · exact pure _
    · refine .bind (runLineWithin _ _ _) fun _ => .get_bind fun t => ?_
      split
      · exact .bind (of_level (.onShell fun _ => rfl)) fun _ => pure _
      · exact pure _

theorem runPending (budget : Nat) : Stays (Host.runPending budget : Act Session Unit) := by
  induction budget with
  | zero =>
    refine .get_bind fun s => ?_
    split
    · exact pure _
    · exact of_level (.throw _)
  | succ budget ih =>
    rw [Host.runPending_succ]
    refine .bind round fun more => ?_
    split
    · exact ih
    · exact pure _

theorem tick : Stays (Host.tick : Act Session Unit) := .bind (of_level (.onShell fun _ => rfl)) fun _ => runPending _

theorem frame (seconds : Double) : Stays (frame seconds) := by
  have counted : Stays (Client.change fun c => { c with frames := c.frames + 1 }) := of_level (.change fun _ => rfl)
  have served : Stays (do
      if (← ask).connected then
        Client.sendCommands
        Client.change fun c => { c with view.oldTime := c.view.time, view.time := c.view.time.add seconds }
        Client.readServer
      Client.change fun c => { c with frames := c.frames + 1 }) := by
    apply ask_bind
    intro c
    dsimp only
    split
    · refine .bind sendCommands fun _ => .bind (of_level (.change fun _ => rfl)) fun _ => ?_
      exact .bind (ask_bind fun _ => readWithin _) fun _ => counted
    · exact counted
  refine .bind (of_level (.change fun _ => rfl)) fun _ => ask_bind fun c => ?_
  refine .bind (of_level (.change fun _ => rfl)) fun _ => .bind tick fun _ => ask_bind fun c => ?_
  dsimp only
  split
  · exact .bind checkConnection fun _ => served
  · exact served

theorem shutDown : Stays shutDown := by
  have left : Stays (do
      Client.disconnect
      Client.writeConfig
      Client.finishTape) :=
    .bind disconnect fun _ => .bind (of_confined .writeConfig) fun _ => of_confined .finishTape
  apply ask_bind
  intro c
  dsimp only
  split
  · exact .bind (of_confined .stopRecording) fun _ => left
  · exact left

theorem turn (turn : Turn) : Stays turn.act := by
  cases turn with
  | enter text => exact onShell (Shell.short_addText text)
  | run text source => exact runLineWithin _ text source
  | frame seconds => exact frame seconds
  | shutDown => exact shutDown

end Stays

/-- What always holds of the connection and of a demo that plays. -/
structure Anchored (c : Core) : Prop extends Core.Linked c where
  watched : c.playing = true → c.connected = true

section

variable {s t : Session}

theorem Move.watched (move : Move s t) (watched : (core s).playing = true → (core s).connected = true) :
    (core t).playing = true → (core t).connected = true := by
  intro playing
  cases move with
  | around same =>
    rw [same] at playing ⊢
    exact watched playing
  | accept quiet now =>
    rw [now]
  | timing _ now =>
    rw [now] at playing ⊢
    exact watched playing
  | saveTape ran =>
    rw [(saveTape_spec ran).elsewhere] at playing ⊢
    exact watched playing
  | finishTape ran =>
    rw [(finishTape_spec ran).elsewhere] at playing ⊢
    exact watched playing
  | writeConfig ran =>
    obtain ⟨text, now⟩ := of_spec (writeConfig_spec s) ran
    rw [now] at playing ⊢
    exact watched playing
  | stopPlayback ran =>
    have now := of_spec (stopPlayback_spec s) ran
    split at now
    · rw [now] at playing
      cases playing
    · rw [now] at playing ⊢
      exact watched playing
  | stopRecording ran =>
    have stopped := of_spec (stopRecording_spec s) ran
    rw [stopped.playing] at playing
    rw [stopped.elsewhere]
    exact watched playing
  | disconnect ran => exact nomatch (of_spec (disconnect_spec s) ran).gone.2.2.symm.trans playing
  | playDemo ran =>
    cases played_of_ok ran with
    | opened _ now _ => rw [now]
    | missing dropped now _ =>
      rw [now] at playing
      exact nomatch dropped.gone.2.2.symm.trans playing
  | beginRecording _ ran =>
    cases of_spec (beginRecording_spec _ _ s) ran with
    | opened _ now =>
      rw [now] at playing
      cases playing
    | refused _ now =>
      rw [now] at playing ⊢
      exact watched playing
  | recordMessage _ ran =>
    cases of_spec (recordMessage_spec s) ran with
    | nothing _ same =>
      rw [same] at playing ⊢
      exact watched playing
    | kept _ _ now | failed _ _ now _ =>
      rw [now] at playing
      cases playing
  | demoMessage ran =>
    cases demoMessage_spec ran with
    | nothing same =>
      rw [same] at playing ⊢
      exact watched playing
    | read before now =>
      rw [now]
      exact watched before
    | ended _ now =>
      rw [now] at playing
      cases playing

theorem Moves.anchored (moves : Moves s t) (anchored : Anchored (core s)) : Anchored (core t) := by
  obtain ⟨trail, leads⟩ := moves
  induction leads with
  | here => exact anchored
  | step move _ ih => exact ih ⟨move.linked anchored.toLinked, move.watched anchored.watched⟩

end

/-- A session as it is made, with any files, arguments and driver. -/
def outset (folders : SearchPath) (disk : Disk) (console : Console) (arguments : Arguments) (net : Option Driver) : Session :=
  let s := newSession folders disk console
  ⟨{ s.shell with arguments }, { s.world with net }⟩

theorem outset_eq (folders : SearchPath) (disk : Disk) (console : Console) (arguments : Arguments) (net : Option Driver) :
    outset folders disk console arguments net =
      ⟨{ (Shell.empty console : Shell ClientCommand) with commands := commandTable, vars := variableTable, arguments },
        { Client.start folders disk with net }⟩ := by
  have made := shell_newSession folders disk console
  unfold outset
  dsimp only
  rw [made]
  rfl

/-- A session that turns of the host have led to without a fault. Between turns things arrive at the driver, and files
are put onto the disk. -/
inductive Attained : Session → Prop where
  | made (folders : SearchPath) (disk : Disk) (console : Console) (arguments : Arguments) (net : Option Driver) :
      Attained (outset folders disk console arguments net)
  | turn {s t : Session} (before : Attained s) (turn : Turn) (ran : turn.act s = .ok () t) : Attained t
  | happening {s : Session} (before : Attained s) (happening : Happening) :
      Attained { s with world := { s.world with net := s.world.net.map (Driver.onLoopback happening.change) } }
  | files {s : Session} (before : Attained s) (disk : Disk) : Attained { s with world := { s.world with disk } }

/-- A message is as large as it was made, and what is written of it is within. -/
structure Sized (limit : Nat) (b : Buffer) : Prop where
  written : b.size ≤ b.capacity
  memory : b.memory.length = b.capacity
  capacity : b.capacity = limit

theorem sized_of_capacity {limit : Nat} {b : Buffer} (capacity : b.capacity = limit) : Sized limit b :=
  ⟨Nat.le_add_right _ _, b.length_memory, capacity⟩

structure Bounded (c : Client) (pending : Text) : Prop where
  signon : 0 ≤ c.signon ∧ c.signon ≤ signons
  place : c.nextDemo = -1 ∨ 0 ≤ c.nextDemo ∧ c.nextDemo ≤ c.demos.length
  loop : c.demos.length ≤ loopLimit ∧ ∀ name ∈ c.demos, name.length ≤ loopNameLimit
  demo : c.playing = true → c.connected = true ∧ c.socket = none
  socket : c.socket.isSome = true → c.connected = true
  pending : Text.size pending < Shell.pendingLimit
  incoming : Sized incomingLimit c.incoming
  outgoing : Sized outgoingLimit c.outgoing

variable {s : Session}

theorem Attained.ready (attained : Attained s) : Ready s ∧ Anchored (core s) := by
  induction attained with
  | made folders disk console arguments net =>
    rw [outset_eq]
    exact ⟨rfl, .of_unlinked rfl, fun playing => nomatch playing⟩
  | turn _ turn ran ih =>
    have conduct := Walks.turn turn ih.1
    rw [ran] at conduct
    cases conduct with
    | ok deeds => exact ⟨deeds.moves.ready ih.1, deeds.moves.anchored ih.2⟩
  | happening _ happening ih => exact ih
  | files _ disk ih => exact ⟨ih.1, ih.2.toLinked.of_same rfl rfl rfl, ih.2.watched⟩

theorem Attained.metered (attained : Attained s) : Metered (gauges s) := by
  induction attained with
  | made folders disk console arguments net =>
    rw [outset_eq]
    have least : (0 : Int) ≤ signons := by decide
    have empty : Text.size [] < Shell.pendingLimit := by decide
    exact ⟨⟨⟨Int.le_refl 0, least⟩, Nat.zero_le _, fun _ none => (nomatch none), empty, Message.capacity_strict _,
        Message.capacity_overflowing _⟩,
      .inr ⟨Int.le_refl 0, Int.le_refl 0⟩⟩
  | turn _ turn ran ih =>
    have stays := Stays.turn turn _ ih
    rw [ran] at stays
    exact stays
  | happening _ happening ih => exact { ih with }
  | files _ disk ih => exact { ih with }

/-- Every session that is attained is within its bounds, and wherever the next demo of the loop is asked for it is one
of the loop. -/
theorem attained_bounded (attained : Attained s) : Bounded s.world s.shell.pending ∧
    ∀ m : Session, m.world.nextDemo ≠ -1 → m.world.demos ≠ [] →
      ∃ (place : Nat) (there : place < m.world.demos.length), queueNextDemo m = .ok () { m with
        shell := m.shell.insertText ("play " ++ m.world.demos[place] ++ "\n")
        world := { m.world with nextDemo := place + 1 } } := by
  have anchored := attained.ready.2
  have metered := attained.metered
  refine ⟨?_, fun m => queueNextDemo_in_range⟩
  constructor
  case signon => exact metered.signon
  case place => exact metered.place
  case loop => exact ⟨metered.loop, metered.names⟩
  case demo => exact fun playing => ⟨anchored.watched playing, anchored.alone playing⟩
  case socket => exact anchored.connected
  case pending => exact metered.pending
  case incoming => exact sized_of_capacity metered.incoming
  case outgoing => exact sized_of_capacity metered.outgoing

/-- A demo that signs on, gives a time and then waits for it to pass. -/
def loopStart : Session :=
  outset (SearchPath.ofBase "/")
    ⟨[(["base".toList], .folder), (["base".toList, "a.dem".toList],
      .file (Packed.ofBytes ([45, 49, 10, 13, 0, 0, 0] ++ List.replicate 12 0 ++
        [25, 1, 25, 2, 25, 3, 25, 4, 7, 0, 0, 32, 65] ++ [1, 0, 0, 0] ++ List.replicate 12 0 ++ [1])))], []⟩
    Console.captured [] (some (.loopback .empty))

theorem looping_bounded :
    let listed := Act.final (Turn.act (.run "startdemos a b" .player) loopStart)
    let shown := Act.final (Turn.act (.frame ⟨0x3FB0000000000000⟩) listed)
    Attained shown ∧ shown.world.playing = true ∧ shown.world.nextDemo = 1 ∧ shown.world.signon = signons ∧
      Bounded shown.world shown.shell.pending ∧ ∃ (place : Nat) (there : place < shown.world.demos.length),
        queueNextDemo shown = .ok () { shown with
          shell := shown.shell.insertText ("play " ++ shown.world.demos[place] ++ "\n")
          world := { shown.world with nextDemo := place + 1 } } := by
  intro listed shown
  have made : Attained loopStart := .made _ _ _ _ _
  have attained : Attained shown :=
    .turn (.turn made _ (Act.ok_final (by decide +kernel))) _ (Act.ok_final (by decide +kernel))
  obtain ⟨playing, next, signon, loop⟩ : shown.world.playing = true ∧ shown.world.nextDemo = 1 ∧
      shown.world.signon = signons ∧ shown.world.demos ≠ [] := by decide +kernel
  obtain ⟨bounded, range⟩ := attained_bounded attained
  exact ⟨attained, playing, next, signon, bounded, range shown (by rw [next]; decide) loop⟩

end Client

end GameHost
