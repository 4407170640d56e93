import GameHost.Proofs.Client.Outlet
import GameHost.Proofs.Client.Stopwatch

/-!
Calls in passing: all those that queue nothing for the server and hand nothing over, take up no connection, begin to time
no demo and put no recording in the place of a timed one. What waits for the server stays, though the connection may be
let go of. A timed demo may come to its report, and then the report is that of the moment.
-/
namespace GameHost.Client
open GameHost.Message (Buffer Order)
open GameHost.Network (Socket Driver Ledger)

/-- What such a call does to what leads to the server. Nothing is told but that the client leaves. -/
structure Parting (s t : Session) : Prop where
  queue : t.world.outgoing = s.world.outgoing
  socket : t.world.socket = s.world.socket ∨ t.world.socket = none
  told : ∃ told : List (Int64 × Bytes), (∀ message ∈ told, message.2 = farewell) ∧
    (outlet t).ledger = (outlet s).ledger.map (Ledger.add told)

/-- What it does to the timing of demos. They are looked into only while messages are read, and none is begun then. A timed
demo plays on unless it comes to its report. -/
structure Lapse (reading : Bool) (s t : Session) : Prop where
  frames : t.world.frames = s.world.frames
  start : t.world.timing.startFrame = s.world.timing.startFrame
  last : t.world.timing.lastFrame = s.world.timing.lastFrame ∨
    reading = true ∧ t.world.timing.lastFrame = s.world.frames
  report : t.world.timing.active = s.world.timing.active ∧ t.world.report = s.world.report ∨
    s.world.timing.active = true ∧ t.world.timing.active = false ∧
      ∃ report, t.world.report = some report ∧ report.frames = (speed s.world).frames
  playing : reading = true → t.world.playing = true → s.world.playing = true
  onward : s.world.playing = true → t.world.timing.active = true → t.world.playing = true

structure Passage (reading : Bool) (s t : Session) : Prop where
  parting : Parting s t
  lapse : Lapse reading s t

variable {reading : Bool} {s m t : Session}

theorem nothing_told (s : Session) : (outlet s).ledger = (outlet s).ledger.map (Ledger.add []) := by
  cases (outlet s).ledger with
  | none => rfl
  | some ledger => exact congrArg some ledger.add_nil.symm

theorem parting_of_same (same : outlet t = outlet s) : Parting s t :=
  ⟨congrArg Outlet.queue same, .inl (congrArg Outlet.socket same), [], nofun,
    (congrArg Outlet.ledger same).trans (nothing_told s)⟩

theorem Parting.trans (first : Parting s m) (second : Parting m t) : Parting s t := by
  obtain ⟨told, farewells, ledger⟩ := first.told
  obtain ⟨more, others, onward⟩ := second.told
  refine ⟨second.queue.trans first.queue, ?_, told ++ more, fun message member => ?_, ?_⟩
  · rcases second.socket with same | none
    · rw [same]
      exact first.socket
    · exact .inr none
  · exact (List.mem_append.1 member).elim (farewells message) (others message)
  · rw [onward, ledger, Option.map_map]
    congr 1
    funext before
    exact before.add_add told more

theorem lapse_of_same (same : stopwatch t = stopwatch s) : Lapse reading s t := by
  have timing : t.world.timing = s.world.timing := congrArg Stopwatch.timing same
  have playing : t.world.playing = s.world.playing := congrArg Stopwatch.playing same
  refine ⟨congrArg Stopwatch.frames same, by rw [timing], .inl (by rw [timing]), .inl ⟨by rw [timing], ?_⟩, fun _ => ?_,
    fun on _ => playing.trans on⟩
  · exact congrArg Stopwatch.report same
  · exact playing.symm.trans

/-- Where no messages are read, a demo that plays may be begun. -/
theorem lapse_of_dial (same : dial t = dial s)
    (onward : s.world.playing = true → t.world.timing.active = true → t.world.playing = true) : Lapse false s t := by
  have timing : t.world.timing = s.world.timing := congrArg Stopwatch.timing same
  exact ⟨congrArg Stopwatch.frames same, by rw [timing], .inl (by rw [timing]),
    .inl ⟨by rw [timing], congrArg Stopwatch.report same⟩, nofun, onward⟩

theorem speed_frames_eq (frames : t.world.frames = s.world.frames)
    (start : t.world.timing.startFrame = s.world.timing.startFrame) : (speed t.world).frames = (speed s.world).frames := by
  unfold speed
  rw [frames, start]

/-- No demo begins to be timed. -/
theorem Lapse.active (lapse : Lapse reading s t) (timed : t.world.timing.active = true) : s.world.timing.active = true := by
  rcases lapse.report with ⟨same, _⟩ | ⟨active, _⟩
  · exact same.symm.trans timed
  · exact active

theorem Lapse.trans (first : Lapse reading s m) (second : Lapse reading m t) : Lapse reading s t := by
  refine ⟨second.frames.trans first.frames, second.start.trans first.start, ?_, ?_, fun looks playing =>
    first.playing looks (second.playing looks playing), fun playing timed =>
    second.onward (first.onward playing (second.active timed)) timed⟩
  · rcases second.last with same | ⟨looks, now⟩
    · rw [same]
      exact first.last
    · exact .inr ⟨looks, now.trans first.frames⟩
  · rcases first.report with ⟨active, same⟩ | ⟨active, ended, made⟩
    · rw [← active, ← same, ← speed_frames_eq first.frames first.start]
      exact second.report
    · rcases second.report with ⟨still, same⟩ | ⟨going, _⟩
      · rw [same]
        exact .inr ⟨active, still.trans ended, made⟩
      · exact nomatch ended.symm.trans going

theorem Passage.trans (first : Passage reading s m) (second : Passage reading m t) : Passage reading s t :=
  ⟨first.parting.trans second.parting, first.lapse.trans second.lapse⟩

theorem passage_of_shell (s : Session) (shell : Shell ClientCommand) : Passage false s { s with shell } :=
  ⟨parting_of_same rfl, lapse_of_same rfl⟩

/-- However an action ends, it has done no more than such a call. -/
def Passes (reading : Bool) (s : Session) {α : Type} (act : Act Session α) : Prop :=
  Passage reading s (Act.final (act s))

namespace Passes

variable {α β : Type}

theorem of_unheard {act : Act Session α} (unheard : Unheard act) (lapse : Lapse reading s (Act.final (act s))) :
    Passes reading s act :=
  ⟨parting_of_same (unheard s), lapse⟩

theorem of_quiet {act : Act Session α} (unheard : Unheard act) (untimed : Untimed act) : Passes reading s act :=
  of_unheard unheard (lapse_of_same (untimed s))

theorem of_ok {act : Act Session α} {a : α} (passes : Passes reading s act) (ran : act s = .ok a t) :
    Passage reading s t := by
  rw [Passes, ran] at passes
  exact passes

theorem pure (a : α) : Passes reading s (pure a : Act Session α) := of_quiet (.pure a) (.pure a)

theorem throw (fault : Fault) : Passes reading s (throw fault : Act Session α) := of_quiet (.throw fault) (.throw fault)

theorem print (text : Text) : Passes reading s (print text) := of_quiet (.print text) (.print text)

theorem onShell (f : Shell ClientCommand → Shell ClientCommand) :
    Passes reading s (Host.onShell f : Act Session Unit) := of_quiet (.onShell f) (.onShell f)

theorem change {f : Client → Client} (heard : ∀ s : Session, outlet { s with world := f s.world } = outlet s)
    (timed : ∀ s : Session, stopwatch { s with world := f s.world } = stopwatch s) : Passes reading s (change f) :=
  of_quiet (.change heard) (.change timed)

theorem queueNextDemo : Passes reading s queueNextDemo := of_quiet .queueNextDemo .queueNextDemo

theorem bind {act : Act Session α} {next : α → Act Session β} (first : Passes reading s act)
    (second : ∀ a t, act s = .ok a t → Passes reading t (next a)) : Passes reading s (act >>= next) := by
  unfold Passes at first ⊢
  cases ran : act s with
  | ok a m =>
    rw [ran] at first
    rw [Act.bind_of_ok ran]
    exact first.trans (second a m ran)
  | error fault m =>
    rw [ran] at first
    rw [Act.bind_of_error ran]
    exact first

theorem ask_bind {next : Client → Act Session β} (there : Passes reading s (next s.world)) :
    Passes reading s (ask >>= next) := there

theorem stopPlayback : Passes reading s stopPlayback := by
  refine of_unheard .stopPlayback ?_
  unfold Client.stopPlayback
  rw [ask_at]
  split
  · rename_i playing
    by_cases timed : s.world.timing.active = true
    · rw [if_pos timed]
      exact ⟨rfl, rfl, .inl rfl, .inr ⟨timed, rfl, speed s.world, rfl, rfl⟩, nofun, nofun⟩
    · rw [if_neg timed]
      exact ⟨rfl, rfl, .inl rfl, .inl ⟨rfl, rfl⟩, nofun, fun _ still => absurd still timed⟩
  · exact lapse_of_same rfl

/-- Nothing but whether a demo plays can have changed, and that has not. -/
theorem of_dial {act : Act Session α} {a : α} (unheard : Unheard act) (ran : act s = .ok a t) (keeps : Act.Keeps dial act)
    (playing : t.world.playing = s.world.playing) : Passes reading s act := by
  refine of_unheard unheard ?_
  rw [ran]
  exact lapse_of_same (stopwatch_of_dial (keeps.of_ok ran) playing)

theorem recordMessage : Passes reading s recordMessage := by
  obtain ⟨t, ran, written⟩ := recordMessage_spec s
  refine of_dial .recordMessage ran (blind_dial.recordMessage dial_demo) ?_
  cases written with
  | nothing _ same => exact congrArg Core.playing same
  | kept recording _ now | failed recording _ now _ =>
    have quiet : s.world.playing = false :=
      Core.playing_of_recording (c := core s) (congrArg Demo.Activity.isRecording recording)
    rw [quiet]
    exact congrArg Core.playing now

theorem stopRecording : Passes reading s stopRecording := by
  obtain ⟨t, ran, stopped⟩ := stopRecording_spec s
  exact of_dial .stopRecording ran (blind_dial.stopRecording dial_demo) stopped.playing

theorem hangUp : Passes reading s hangUp := by
  obtain ⟨t, ran, same | ⟨socket, _, now⟩⟩ := hangUp_outlet s
  · have untimed : stopwatch t = stopwatch s := blind_stopwatch.hangUp.of_ok ran
    unfold Passes
    rw [ran]
    exact ⟨parting_of_same same, lapse_of_same untimed⟩
  · have untimed : stopwatch t = stopwatch s := blind_stopwatch.hangUp.of_ok ran
    unfold Passes
    rw [ran]
    refine ⟨⟨congrArg Outlet.queue now, .inl (congrArg Outlet.socket now), [(socket.session, farewell)], ?_, ?_⟩,
      lapse_of_same untimed⟩
    · simp
    · exact congrArg Outlet.ledger now

theorem disconnect : Passes reading s disconnect := by
  have left {t : Session} :
      Passes reading t (Client.change fun c => { c with socket := none, connected := false, signon := 0 }) :=
    ⟨⟨rfl, .inr rfl, [], nofun, nothing_told t⟩, lapse_of_same rfl⟩
  unfold Client.disconnect
  apply ask_bind
  dsimp only
  split
  · exact bind stopPlayback fun _ _ _ => left
  · split
    · split
      · exact bind stopRecording fun _ _ _ => bind hangUp fun _ _ _ => left
      · exact bind hangUp fun _ _ _ => left
    · exact left

theorem gameError (message : Text) : Passes reading s (gameError message) :=
  bind (print _) fun _ _ _ => bind (change (fun _ => rfl) fun _ => rfl) fun _ _ _ => disconnect

theorem endGame : Passes reading s endGame := bind disconnect fun _ _ _ => queueNextDemo

theorem obey (orders : List Order) : Passes reading s (obey orders) := by
  induction orders generalizing s with
  | nil => exact pure _
  | cons order rest ih =>
    cases order with
    | nothing => exact ih
    | time seconds => exact bind (change (fun _ => rfl) fun _ => rfl) fun _ _ _ => ih
    | print text => exact bind (print _) fun _ _ _ => ih
    | run text => exact bind (onShell _) fun _ _ _ => ih
    | signon number =>
      apply ask_bind
      split
      · exact bind (change (fun _ => rfl) fun _ => rfl) fun _ _ _ => ih
      · exact gameError _
    | leave => exact endGame
    | illegible => exact gameError _
    | broken => exact gameError _

theorem receive {net : Driver} (there : s.world.net = some net) (socket : Socket) :
    Passes reading s (receive net socket) :=
  ⟨parting_of_same (receive_unheard there socket), lapse_of_same (Untimed.receive net socket s)⟩

theorem networkMessage (socket : Socket) (fuel : Nat) : Passes reading s (networkMessage socket fuel) := by
  induction fuel generalizing s with
  | zero => exact throw _
  | succ fuel ih =>
    apply ask_bind
    split
    · exact pure _
    · rename_i net there
      refine bind (receive there socket) fun kind m _ => ?_
      split
      · exact pure _
      · apply ask_bind
        split
        · exact bind (print _) fun _ _ _ => ih
        · exact bind recordMessage fun _ _ _ => pure _

/-- The look comes first; a demo that has no frame left is over then. -/
theorem demoMessage : Passes true s demoMessage := by
  apply ask_bind
  cases look : frameDue s.world with
  | mk due timing =>
  have now : timing = (frameDue s.world).2 := by rw [look]
  have looked : Passes true s (Client.change fun c => { c with timing }) := by
    subst now
    exact of_unheard (.change fun _ => rfl) ⟨rfl, frameDue_startFrame s.world,
      (frameDue_lastFrame s.world).imp_right fun last => ⟨rfl, last⟩, .inl ⟨frameDue_active s.world, rfl⟩, fun _ => id,
      fun on _ => on⟩
  refine bind looked fun _ m ran => ?_
  cases ran
  dsimp only
  split
  · rename_i file doing
    have playing : s.world.playing = true := congrArg Demo.Activity.isPlaying doing
    have further (file : Reader) : Passes true ({ s with world := { s.world with timing } } : Session)
        (Client.change fun c => { c with demo := .playing file }) :=
      of_unheard (.change fun _ => rfl)
        (lapse_of_same (stopwatch_of_playing (s := { s with world := { s.world with timing } }) playing file))
    refine bind (further _) fun _ _ _ => ?_
    split
    · exact throw _
    · exact bind stopPlayback fun _ _ _ => pure _
    · refine bind (of_quiet (.within fun _ _ => rfl) (.within fun _ _ => rfl)) fun _ _ _ => ?_
      exact bind (change (fun _ => rfl) fun _ => rfl) fun _ _ _ => pure _
  · exact pure _

theorem nextMessage : Passes true s nextMessage := by
  apply ask_bind
  split
  · exact demoMessage
  · split
    · exact networkMessage _ _
    · exact pure _

theorem readWithin (fuel : Nat) : Passes true s (readWithin fuel) := by
  induction fuel generalizing s with
  | zero => exact throw _
  | succ fuel ih =>
    refine bind nextMessage fun kind _ _ => ?_
    split
    · exact gameError _
    · split
      · refine bind (ask_bind (obey _)) fun _ _ _ => ask_bind ?_
        split
        · exact ih
        · exact pure _
      · exact pure _

theorem readServer : Passes true s readServer := ask_bind (readWithin _)

/-- A recording that takes the place of no timed demo. -/
theorem beginRecording {path : Path} {track : Int32} (ran : Client.beginRecording path track s = .ok () t)
    (onward : s.world.playing = true → t.world.timing.active = true → t.world.playing = true) :
    Passes false s (Client.beginRecording path track) := by
  have same : dial t = dial s := (blind_dial.beginRecording dial_demo path track).of_ok ran
  refine of_unheard (.beginRecording path track) ?_
  rw [ran]
  exact lapse_of_dial same onward

theorem playDemo (name : Text) : Passes false s (playDemo name) := by
  refine bind disconnect fun _ _ _ => bind (print _) fun _ m _ => ask_bind ?_
  split
  · exact bind (print _) fun _ _ _ => bind (change (fun _ => rfl) fun _ => rfl) fun _ _ _ => pure _
  · have turned (file : Reader) : Passes false m (Client.change (turnTo (.playing file))) :=
      of_unheard (.change fun _ => rfl) (lapse_of_dial rfl fun _ _ => rfl)
    exact bind (turned _) fun _ _ _ => bind (change (fun _ => rfl) fun _ => rfl) fun _ _ _ => pure _

theorem demoNamed (usage : Text) : Passes reading s (demoNamed usage) :=
  of_quiet (.demoNamed usage) (blind_stopwatch.demoNamed usage)

theorem play : Passes false s play := by
  refine bind (demoNamed _) fun named _ _ => ?_
  split
  · exact bind (playDemo _) fun _ _ _ => pure _
  · exact pure _

theorem resumeDemos : Passes reading s resumeDemos :=
  bind (change (fun _ => rfl) fun _ => rfl) fun _ _ _ => bind disconnect fun _ _ _ => queueNextDemo

theorem stopDemo : Passes reading s stopDemo := by
  apply ask_bind
  split
  · exact bind stopPlayback fun _ _ _ => disconnect
  · exact pure _

theorem fromPlayer : Passes reading s fromPlayer := of_quiet (fun _ => rfl) fun _ => rfl

theorem ifFromPlayer {act : Act Session Unit} (passes : ∀ t, Passes reading t act) :
    Passes reading s (ifFromPlayer act) := by
  refine bind fromPlayer fun given t _ => ?_
  split
  · exact passes t
  · exact pure _

theorem writeConfig : Passes reading s writeConfig := of_quiet .writeConfig blind_stopwatch.writeConfig

theorem shutDown : Passes reading s shutDown := by
  have left {t : Session} : Passes reading t (do
      Client.disconnect
      Client.writeConfig
      Client.finishTape) :=
    bind disconnect fun _ _ _ => bind writeConfig fun _ _ _ => of_quiet .finishTape blind_stopwatch.finishTape
  apply ask_bind
  dsimp only
  split
  · exact bind stopRecording fun _ _ _ => left
  · exact left

/-- So do all commands of the client but those that run a further line or time a demo. -/
theorem perform {run : Text → Source → Act Session Unit} {command : ClientCommand} (other : command ≠ .record)
    (untimed : command ≠ .timeDemo) : Passes false s (perform run command) := by
  cases command with
  | disconnect => exact disconnect
  | quit => exact ifFromPlayer fun _ => change (fun _ => rfl) fun _ => rfl
  | writeConfig => exact ifFromPlayer fun _ => writeConfig
  | record => exact absurd rfl other
  | stop => exact ifFromPlayer fun _ => stopRecording
  | play => exact ifFromPlayer fun _ => play
  | timeDemo => exact absurd rfl untimed
  | startDemos => exact of_quiet .startDemos .startDemos
  | demos => exact resumeDemos
  | stopDemo => exact stopDemo

end Passes

end GameHost.Client
