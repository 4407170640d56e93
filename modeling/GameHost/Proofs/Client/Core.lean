import GameHost.Client.Frame
import GameHost.Proofs.Act

/-!
What the client's functions do to its connection, its demo and its files. Each of them is said once here, with all
the outcomes it has; those that cannot fail are shown to end well.
-/
namespace GameHost
open GameHost.Network (Socket Driver)

namespace Console

/-- What prints go to. -/
def pieces (c : Console) : List Text := c.capture.getD c.terminal

theorem pieces_print (text : Text) (c : Console) : (c.print text).pieces = text :: c.pieces := by
  unfold print pieces
  split <;> simp [*]

theorem pieces_foldl_print (texts : List Text) (c : Console) :
    (texts.foldl (fun console text => console.print text) c).pieces = texts.reverse ++ c.pieces := by
  induction texts generalizing c with
  | nil => rfl
  | cons text later ih => rw [List.foldl_cons, ih, pieces_print, List.reverse_cons, List.append_assoc, List.singleton_append]

end Console

namespace Client

/-- What says whether the client is connected, plays or records, and what its files hold. -/
structure Core where
  commands : NameTable (Action ClientCommand)
  folders : SearchPath
  disk : Disk
  connected : Bool
  socket : Option Socket
  demo : Demo.Activity
  track : Int32
  timed : Bool
  tapeFile : Option Writer

def core (s : Session) : Core :=
  { commands := s.shell.commands
    folders := s.world.folders
    disk := s.world.disk
    connected := s.world.connected
    socket := s.world.socket
    demo := s.world.demo
    track := s.world.track
    timed := s.world.timing.active
    tapeFile := s.world.tapeFile }

def failureReport (fault : StorageFault) : Text :=
  "ERROR: demo write failed (" ++ fault.message ++ "), recording stopped\n"

/-- Among what was printed from `s` to `t` is the report of a failed write. -/
def Reported (s t : Session) : Prop :=
  ∃ before fault after, t.shell.console =
    (before ++ failureReport fault :: after).foldl (fun console text => console.print text) s.shell.console

theorem Reported.print {s m t : Session} (reported : Reported s m) (text : Text)
    (printed : t.shell.console = m.shell.console.print text) : Reported s t := by
  obtain ⟨before, fault, after, console⟩ := reported
  refine ⟨before, fault, after ++ [text], ?_⟩
  rw [printed, console]
  simp only [List.foldl_append, List.foldl_cons, List.foldl_nil]

theorem ask_at {β : Type} (next : Client → Act Session β) (s : Session) : (ask >>= next) s = next s.world s := rfl

theorem change_at {β : Type} (f : Client → Client) (next : Unit → Act Session β) (s : Session) :
    (change f >>= next) s = next () { s with world := f s.world } := rfl

theorem print_at {β : Type} (text : Text) (next : Unit → Act Session β) (s : Session) :
    (print text >>= next) s = next () { s with shell := s.shell.print text } := rfl

/-- What becomes of a recording, if there is one, that something is written to: it goes on with what is left, or it
is given up with a report. -/
inductive Written (act : FileAct Unit) (s t : Session) : Prop where
  | nothing (quiet : s.world.recording = false) (same : core t = core s)
  | kept {file left : Writer} {disk : Disk} (recording : s.world.demo = .recording file)
      (wrote : act (file, s.world.disk) = .ok () (left, disk))
      (now : core t = { core s with demo := .recording left, disk })
  | failed {file left : Writer} {disk : Disk} {fault : StorageFault} (recording : s.world.demo = .recording file)
      (wrote : act (file, s.world.disk) = .error fault (left, disk))
      (now : core t = { core s with demo := .idle, disk := left.close disk }) (reported : Reported s t)

/-- What becomes of a recording, if there is one, that is stopped. -/
inductive Stopped (s t : Session) : Prop where
  | nothing (quiet : s.world.recording = false) (same : core t = core s)
  | finished {file left : Writer} {disk : Disk} (recording : s.world.demo = .recording file)
      (wrote : finishDemo s.world.view.angles (file, s.world.disk) = .ok () (left, disk))
      (now : core t = { core s with demo := .idle, disk := left.close disk })
  | failed {file left : Writer} {disk : Disk} {fault : StorageFault} (recording : s.world.demo = .recording file)
      (wrote : finishDemo s.world.view.angles (file, s.world.disk) = .error fault (left, disk))
      (now : core t = { core s with demo := .idle, disk := left.close disk }) (reported : Reported s t)

section

variable {s : Session} {file left : Writer} {disk : Disk} {act : FileAct Unit}

theorem onDemoFile_of_ok (wrote : act (file, s.world.disk) = .ok () (left, disk)) :
    onDemoFile file act s = .ok none { s with world := { s.world with demo := .recording left, disk } } := by
  unfold onDemoFile
  rw [ask_at, wrote]
  rfl

theorem onDemoFile_of_error {fault : StorageFault} (wrote : act (file, s.world.disk) = .error fault (left, disk)) :
    onDemoFile file act s = .ok (some fault) { s with world := { s.world with demo := .recording left, disk } } := by
  unfold onDemoFile
  rw [ask_at, wrote]
  rfl

end

theorem quiet_of_demo {c : Client} (other : ∀ file, c.demo ≠ .recording file) : c.recording = false := by
  unfold Client.recording
  cases doing : c.demo with
  | recording file => exact absurd doing (other file)
  | idle => rfl
  | playing file => rfl

theorem recordMessage_spec (s : Session) : ∃ t, recordMessage s = .ok () t ∧
    Written (Writer.writeAll (Demo.Frame.pieces ⟨s.world.view.angles, s.world.incoming.written⟩)) s t := by
  unfold recordMessage
  rw [ask_at]
  cases doing : s.world.demo with
  | idle => exact ⟨s, rfl, .nothing (quiet_of_demo (by simp [doing])) rfl⟩
  | playing file => exact ⟨s, rfl, .nothing (quiet_of_demo (by simp [doing])) rfl⟩
  | recording file =>
    cases wrote : Writer.writeAll (Demo.Frame.pieces ⟨s.world.view.angles, s.world.incoming.written⟩)
        (file, s.world.disk) with
    | ok _ after => exact ⟨_, (Act.bind_of_ok (onDemoFile_of_ok wrote)).trans rfl, .kept doing wrote rfl⟩
    | error fault after =>
      exact ⟨_, (Act.bind_of_ok (onDemoFile_of_error wrote)).trans rfl, .failed doing wrote rfl ⟨[], fault, [], rfl⟩⟩

theorem stopRecording_spec (s : Session) : ∃ t, stopRecording s = .ok () t ∧ Stopped s t := by
  unfold stopRecording
  rw [ask_at]
  cases doing : s.world.demo with
  | idle => exact ⟨_, rfl, .nothing (quiet_of_demo (by simp [doing])) rfl⟩
  | playing file => exact ⟨_, rfl, .nothing (quiet_of_demo (by simp [doing])) rfl⟩
  | recording file =>
    cases wrote : finishDemo s.world.view.angles (file, s.world.disk) with
    | ok _ after => exact ⟨_, (Act.bind_of_ok (onDemoFile_of_ok wrote)).trans rfl, .finished doing wrote rfl⟩
    | error fault after =>
      exact ⟨_, (Act.bind_of_ok (onDemoFile_of_error wrote)).trans rfl, .failed doing wrote rfl ⟨[], fault, [], rfl⟩⟩

/-- What is left of a session that lets go of its server or its demo. -/
inductive Dropped (s t : Session) : Prop where
  | played (playing : s.world.playing = true)
      (now : core t = { core s with demo := .idle, timed := false, socket := none, connected := false })
  | recorded {m : Session} (connected : s.world.connected = true) (recording : s.world.recording = true)
      (stopped : Stopped s m)
      (now : core t = { core m with socket := none, connected := false })
      (console : t.shell.console = m.shell.console)
  | left (quiet : s.world.playing = false) (apart : s.world.connected = true → s.world.recording = false)
      (now : core t = { core s with socket := none, connected := false })

theorem stopPlayback_spec (s : Session) : ∃ t, stopPlayback s = .ok () t ∧
    core t = if s.world.playing then { core s with demo := .idle, connected := false, timed := false } else core s := by
  unfold stopPlayback
  rw [ask_at]
  by_cases playing : s.world.playing = true
  · rw [if_pos playing, if_pos playing]
    by_cases timed : s.world.timing.active = true
    · rw [if_pos timed]
      exact ⟨_, rfl, rfl⟩
    · rw [if_neg timed]
      have untimed : s.world.timing.active = false := by simpa using timed
      exact ⟨_, rfl, by rw [← untimed]; rfl⟩
  · rw [if_neg playing, if_neg playing]
    exact ⟨s, rfl, rfl⟩

theorem hangUp_spec (s : Session) : ∃ t, hangUp s = .ok () t ∧ core t = core s ∧ t.shell.console = s.shell.console := by
  unfold hangUp
  rw [ask_at]
  cases s.world.net with
  | none => exact ⟨s, rfl, rfl, rfl⟩
  | some net =>
    cases s.world.socket with
    | none => exact ⟨s, rfl, rfl, rfl⟩
    | some socket => exact ⟨_, rfl, rfl, rfl⟩

theorem disconnect_spec (s : Session) : ∃ t, disconnect s = .ok () t ∧ Dropped s t := by
  unfold disconnect
  rw [ask_at]
  by_cases playing : s.world.playing = true
  · obtain ⟨m, stopped, now⟩ := stopPlayback_spec s
    rw [if_pos playing] at now
    rw [if_pos playing, Act.bind_of_ok stopped]
    exact ⟨_, rfl, .played playing (congrArg (fun c : Core => { c with socket := none, connected := false }) now)⟩
  · have quiet : s.world.playing = false := by simpa using playing
    rw [if_neg playing]
    by_cases connected : s.world.connected = true
    · rw [if_pos connected]
      by_cases recording : s.world.recording = true
      · obtain ⟨m, ran, stopped⟩ := stopRecording_spec s
        obtain ⟨n, hung, same, console⟩ := hangUp_spec m
        rw [if_pos recording]
        refine ⟨_, (Act.bind_of_ok ran).trans ((Act.bind_of_ok hung).trans rfl), ?_⟩
        refine .recorded connected recording stopped ?_ console
        exact congrArg (fun c : Core => { c with socket := none, connected := false }) same
      · obtain ⟨n, hung, same, console⟩ := hangUp_spec s
        rw [if_neg recording]
        refine ⟨_, (Act.bind_of_ok hung).trans rfl, .left quiet (fun _ => by simpa using recording) ?_⟩
        exact congrArg (fun c : Core => { c with socket := none, connected := false }) same
    · rw [if_neg connected]
      exact ⟨_, rfl, .left quiet (fun other => absurd other connected) rfl⟩

inductive Played (s t : Session) : Bool → Prop where
  | opened {m : Session} {file : Reader} {track : Int32} (dropped : Dropped s m)
      (now : core t = { core m with
        demo := .playing file, disk := m.world.demo.close m.world.disk, track, connected := true })
      (reports : Reported s m → Reported s t) : Played s t true
  | missing {m : Session} (dropped : Dropped s m) (now : core t = core m) (reports : Reported s m → Reported s t) :
    Played s t false

theorem playDemo_spec (name : Text) (s : Session) :
    ∃ opened t, playDemo name s = .ok opened t ∧ Played s t opened := by
  obtain ⟨m, ran, dropped⟩ := disconnect_spec s
  unfold playDemo
  rw [Act.bind_of_ok ran, print_at, ask_at]
  let said : Session := { m with shell := m.shell.print ("Playing demo from " ++ name ++ ".\n") }
  have told : Reported s m → Reported s said := fun reported => reported.print _ rfl
  dsimp only
  -- what stands in the demo's first line does not matter here, and must not be worked out
  cases (m.world.folders.find name m.world.disk).bind fun path => (m.world.disk.locate path).toOption with
  | none => exact ⟨false, _, rfl, .missing dropped rfl fun reported => (told reported).print _ rfl⟩
  | some place =>
    dsimp only
    generalize Reader.line _ _ = opened
    exact ⟨true, _, rfl, .opened dropped rfl told⟩

inductive Begun (path : Path) (track : Int32) (s t : Session) : Prop where
  | opened {file : Writer} {disk : Disk} (made : Writer.create path (Demo.trackLine track) s.world.disk = .ok file disk)
      (now : core t = { core s with demo := .recording file, disk := s.world.demo.close disk, track })
  | refused {fault : StorageFault} {disk : Disk}
      (made : Writer.create path (Demo.trackLine track) s.world.disk = .error fault disk)
      (now : core t = { core s with disk })

theorem beginRecording_spec (path : Path) (track : Int32) (s : Session) :
    ∃ t, beginRecording path track s = .ok () t ∧ Begun path track s t := by
  unfold beginRecording
  rw [print_at, ask_at]
  dsimp only
  cases made : Writer.create path (Demo.trackLine track) s.world.disk with
  | ok file disk => exact ⟨_, rfl, .opened made rfl⟩
  | error fault disk => exact ⟨_, rfl, .refused made rfl⟩

theorem writeConfig_spec (s : Session) : ∃ t, writeConfig s = .ok () t ∧ ∃ text,
    core t = { core s with disk := Act.final (saveText (s.world.folders.writePath configName) text s.world.disk) } := by
  unfold writeConfig
  rw [Act.bind_get]
  dsimp only
  cases saved : saveText (s.world.folders.writePath configName) (s.shell.variableScript ++ s.shell.aliasScript)
      s.world.disk with
  | ok _ disk => exact ⟨_, rfl, _, by rw [saved]; rfl⟩
  | error fault disk => exact ⟨_, rfl, _, by rw [saved]; rfl⟩

inductive Taped (s t : Session) : Prop where
  | nothing (same : core t = core s)
  | wrote {file left : Writer} {disk : Disk} {act : FileAct Unit} (taping : s.world.tapeFile = some file)
      (kind : act = Writer.flush ∨ ∃ pieces, act = Writer.writeAll pieces)
      (ran : act (file, s.world.disk) = .ok () (left, disk))
      (now : core t = { core s with disk, tapeFile := some left })

theorem Taped.of_core {s m t : Session} (taped : Taped m t) (same : core m = core s) : Taped s t := by
  have disk : m.world.disk = s.world.disk := congrArg Core.disk same
  have file : m.world.tapeFile = s.world.tapeFile := congrArg Core.tapeFile same
  cases taped with
  | nothing now => exact .nothing (now.trans same)
  | wrote taping kind ran now =>
    rw [file] at taping
    rw [disk] at ran
    rw [same] at now
    exact .wrote taping kind ran now

theorem onTapeFile_spec {s t : Session} {file : Writer} {act : FileAct Unit} (taping : s.world.tapeFile = some file)
    (kind : act = Writer.flush ∨ ∃ pieces, act = Writer.writeAll pieces) (ran : onTapeFile file act s = .ok () t) :
    Taped s t := by
  unfold onTapeFile at ran
  rw [ask_at] at ran
  cases wrote : act (file, s.world.disk) with
  | ok _ after =>
    rw [wrote] at ran
    cases ran
    exact .wrote taping kind wrote rfl
  | error fault after =>
    rw [wrote] at ran
    cases ran

theorem saveTape_spec {s t : Session} (ran : saveTape s = .ok () t) : Taped s t := by
  unfold saveTape at ran
  rw [ask_at] at ran
  cases taping : s.world.tapeFile with
  | none =>
    rw [taping] at ran
    cases ran
    exact .nothing rfl
  | some file =>
    cases net : s.world.net with
    | none =>
      rw [taping, net] at ran
      cases ran
      exact .nothing rfl
    | some driver =>
      rw [taping, net] at ran
      cases driver with
      | loopback network =>
        cases ran
        exact .nothing rfl
      | player recording =>
        cases ran
        exact .nothing rfl
      | recorder tape inner =>
        obtain ⟨_, m, changed, ran⟩ := Act.bind_ok.1 ran
        cases changed
        have taped := onTapeFile_spec (by exact taping) (.inr ⟨_, rfl⟩) ran
        exact taped.of_core rfl

theorem finishTape_spec {s t : Session} (ran : finishTape s = .ok () t) : Taped s t := by
  unfold finishTape at ran
  rw [ask_at] at ran
  cases taping : s.world.tapeFile with
  | none =>
    rw [taping] at ran
    cases ran
    exact .nothing rfl
  | some file =>
    rw [taping] at ran
    exact onTapeFile_spec taping (.inl rfl) ran

inductive Looked (s t : Session) : Prop where
  | nothing (same : core t = core s)
  | read {file : Reader} (playing : s.world.playing = true) (now : core t = { core s with demo := .playing file })
  | ended (playing : s.world.playing = true)
      (now : core t = { core s with demo := .idle, connected := false, timed := false })

theorem frameDue_active (c : Client) : (frameDue c).2.active = c.timing.active := by
  unfold frameDue
  split
  · rfl
  · split
    · split
      · rfl
      · dsimp only
        split <;> rfl
    · rfl

theorem core_timing {s : Session} {timing : Timing} (same : timing.active = s.world.timing.active) :
    core { s with world := { s.world with timing } } = core s :=
  congrArg (fun timed => { core s with timed }) same

theorem demoMessage_spec {s t : Session} {kind : Int32} (ran : demoMessage s = .ok kind t) : Looked s t := by
  unfold demoMessage at ran
  rw [ask_at] at ran
  have active := frameDue_active s.world
  cases look : frameDue s.world with
  | mk due timing =>
    rw [look] at ran active
    obtain ⟨_, m, changed, ran⟩ := Act.bind_ok.1 ran
    cases changed
    cases due with
    | false =>
      cases ran
      exact .nothing (core_timing active)
    | true =>
      cases doing : s.world.demo with
      | idle =>
        rw [doing] at ran
        cases ran
        exact .nothing (core_timing active)
      | recording file =>
        rw [doing] at ran
        cases ran
        exact .nothing (core_timing active)
      | playing file =>
        have playing : s.world.playing = true := by rw [Client.playing, doing]; rfl
        rw [doing] at ran
        dsimp only at ran
        cases read : Demo.readFrame file s.world.disk with
        | mk frame after =>
          rw [read] at ran
          obtain ⟨_, m, changed, ran⟩ := Act.bind_ok.1 ran
          cases changed
          cases frame with
          | error fault => cases ran
          | ok frame =>
            cases frame with
            | none =>
              obtain ⟨_, u, stopped, ran⟩ := Act.bind_ok.1 ran
              cases ran
              obtain ⟨_, stopped', now⟩ := stopPlayback_spec { s with
                world := { s.world with timing, demo := .playing after } }
              cases stopped.symm.trans stopped'
              exact .ended playing now
            | some frame =>
              obtain ⟨_, m, filled, ran⟩ := Act.bind_ok.1 ran
              obtain ⟨incoming, _, rfl⟩ := Act.within_ok.1 filled
              cases ran
              exact .read playing (congrArg (fun timed => { core s with demo := .playing after, timed }) active)

end Client

end GameHost
