import GameHost.Proofs.Client.Linked
import GameHost.Proofs.Disk.Stream

/-!
What a demo file holds when its recording ends: the track line, whole frames, and last the frame that ends every
demo. It is missing from a recording without a connection whose place a demo takes that is played.
-/
namespace GameHost.Client

def Terminated (track : Int32) (bytes : Bytes) : Prop := ∃ (frames : List Demo.Frame) (angles : Angles),
  bytes = Demo.trackLine track ++ frames.flatMap Demo.Frame.encode ++ Demo.Frame.encode ⟨angles, farewell⟩

/-- A demo being recorded has its track line and whole frames, and no frames without a connection. -/
def Whole (c : Core) : Prop := ∀ file, c.demo = .recording file → ∃ frames : List Demo.Frame,
  file.Holds c.disk (Demo.trackLine c.track ++ frames.flatMap Demo.Frame.encode) ∧ (c.connected = false → frames = [])

/-- Something changes the file of a demo being recorded, and it is not the recording. -/
def Overwritten (s t : Session) : Prop := ∃ file, s.world.demo = .recording file ∧ t.world.demo = .recording file ∧
  t.world.disk.entryAt file.place ≠ s.world.disk.entryAt file.place

theorem Whole.of_silent {c : Core} (silent : c.recording = false) : Whole c := by
  intro file doing
  rw [Core.recording, doing] at silent
  cases silent

variable {s t : Session}

theorem close_of_silent {c : Client} (silent : c.recording = false) (disk : Disk) : c.demo.close disk = disk := by
  cases doing : c.demo with
  | recording file =>
    rw [Client.recording, doing] at silent
    cases silent
  | idle => rfl
  | playing file => rfl

theorem holds_of_calm {file : Writer} {bytes : Bytes} (holds : file.Holds s.world.disk bytes)
    (before : s.world.demo = .recording file) (after : t.world.demo = .recording file) (calm : ¬ Overwritten s t) :
    file.Holds t.world.disk bytes := by
  obtain ⟨stored, there, whole⟩ := holds
  have entry : t.world.disk.entryAt file.place = s.world.disk.entryAt file.place := by
    by_contra changed
    exact calm ⟨file, before, after, changed⟩
  exact ⟨stored, ⟨there.offset, entry ▸ there.entry⟩, whole⟩

theorem Begun.holds {path : Path} {track : Int32} (begun : Begun path track s t) (silent : s.world.recording = false)
    {file : Writer} (doing : t.world.demo = .recording file) :
    t.world.track = track ∧ file.Holds t.world.disk (Demo.trackLine track) := by
  cases begun with
  | @opened made disk created now =>
    rw [close_of_silent silent] at now
    cases doing.symm.trans (congrArg Core.demo now)
    rw [show t.world.disk = disk from congrArg Core.disk now]
    exact ⟨congrArg Core.track now, Writer.create_holds created⟩
  | refused _ now =>
    have quiet : t.world.recording = false := (congrArg Core.recording now).trans silent
    exact nomatch quiet.symm.trans (congrArg Demo.Activity.isRecording doing)

theorem Written.elsewhere {act : FileAct Unit} (written : Written act s t) :
    core t = { core s with demo := (core t).demo, disk := (core t).disk } := by
  cases written with
  | nothing _ same => rw [same]
  | kept _ _ now => rw [now]
  | failed _ _ now _ => rw [now]

theorem Written.holds {pieces : List Bytes} (written : Written (Writer.writeAll pieces) s t) {left : Writer}
    (after : t.world.demo = .recording left) : ∃ file, s.world.demo = .recording file ∧
      ∀ bytes, file.Holds s.world.disk bytes → left.Holds t.world.disk (bytes ++ pieces.flatten) := by
  cases written with
  | nothing quiet same =>
    have before : s.world.demo = .recording left := (congrArg Core.demo same).symm.trans after
    exact nomatch quiet.symm.trans (congrArg Demo.Activity.isRecording before)
  | failed _ _ now _ => exact nomatch after.symm.trans (congrArg Core.demo now)
  | @kept file _ disk doing wrote now =>
    cases after.symm.trans (congrArg Core.demo now)
    rw [show t.world.disk = disk from congrArg Core.disk now]
    exact ⟨file, doing, fun bytes holds => holds.writeAll wrote⟩

theorem Whole.of_same (whole : Whole (core s)) (calm : ¬ Overwritten s t) (demo : (core t).demo = (core s).demo)
    (track : (core t).track = (core s).track) (offline : (core t).connected = false → (core s).connected = false) :
    Whole (core t) := by
  intro file doing
  have before : s.world.demo = .recording file := demo.symm.trans doing
  obtain ⟨frames, holds, none⟩ := whole file before
  rw [track]
  exact ⟨frames, holds_of_calm holds before doing calm, fun gone => none (offline gone)⟩

theorem finishDemo_local (angles : Angles) : Writer.Local (finishDemo angles) :=
  .bind (.writeAll _) fun _ => .flush

theorem finishDemo_stored {angles : Angles} {file left : Writer} {disk disk' : Disk} {bytes : Bytes}
    (holds : file.Holds disk bytes) (ran : finishDemo angles (file, disk) = .ok () (left, disk')) :
    left.Stored disk' (bytes ++ Demo.Frame.encode ⟨angles, farewell⟩) ∧ left.held = Packed.empty := by
  obtain ⟨_, ⟨m, after⟩, wrote, flushed⟩ := Act.bind_ok.1 ran
  exact (holds.writeAll wrote).flush flushed

/-- How a recording ends: a failure is reported, or the last frame is written and the file closed, or, without a
connection, a demo that is played takes the place of the recording. -/
inductive Ending (s t : Session) (file : Writer) : Prop where
  | reported (reported : Reported s t)
  | finished {left : Writer} {disk : Disk}
      (wrote : finishDemo s.world.view.angles (file, s.world.disk) = .ok () (left, disk))
      (now : t.world.disk = left.close disk) (apart : t.world.playing = true → s.world.connected = true)
  | supplanted (playing : t.world.playing = true) (offline : s.world.connected = false)
      (now : t.world.disk = file.close s.world.disk)

theorem finishDemo_content {angles : Angles} {file left : Writer} {disk disk' : Disk} {bytes : Bytes}
    (holds : file.Holds disk bytes) (wrote : finishDemo angles (file, disk) = .ok () (left, disk')) :
    ((left.close disk').contents file.place).bytes = bytes ++ Demo.Frame.encode ⟨angles, farewell⟩ := by
  obtain ⟨stored, empty⟩ := finishDemo_stored holds wrote
  have beside := finishDemo_local angles (file, disk)
  rw [wrote] at beside
  have place : left.place = file.place := beside.place
  rw [Writer.close_of_empty empty, ← place]
  exact stored.contents (by simp [Demo.Frame.encode, Demo.Frame.pieces, farewell])

theorem Stopped.ending {m : Session} (stopped : Stopped s m) {file : Writer} (recording : s.world.demo = .recording file)
    (disk : t.world.disk = m.world.disk) (reports : Reported s m → Reported s t)
    (apart : t.world.playing = true → s.world.connected = true) : Ending s t file := by
  cases stopped with
  | nothing quiet _ =>
    rw [Client.recording, recording] at quiet
    cases quiet
  | failed _ _ _ reported => exact .reported (reports reported)
  | finished doing wrote now =>
    cases recording.symm.trans doing
    exact .finished wrote (disk.trans (congrArg Core.disk now)) apart

/-- What becomes of a demo being recorded when server or demo are let go: with a connection it ends, without one the
recording goes on. -/
theorem Dropped.ending {m : Session} (dropped : Dropped s m) {file : Writer}
    (recording : s.world.demo = .recording file) :
    (s.world.connected = true ∧ (core m).recording = false ∧
      ∀ t : Session, t.world.disk = m.world.disk → (Reported s m → Reported s t) → Ending s t file) ∨
      s.world.connected = false ∧ core m = { core s with socket := none, connected := false } := by
  have known : (core s).recording = true := congrArg Demo.Activity.isRecording recording
  cases dropped with
  | played playing now =>
    rw [Core.recording_of_playing (c := core s) playing] at known
    cases known
  | recorded connected _ stopped now console =>
    refine .inl ⟨connected, ?_, ?_⟩
    · rw [now]
      exact stopped.silent
    · intro t disk reports
      refine stopped.ending recording (disk.trans (congrArg Core.disk now)) ?_ fun _ => connected
      rintro ⟨before, fault, after, printed⟩
      exact reports ⟨before, fault, after, console.trans printed⟩
  | left quiet unconnected now =>
    have offline : s.world.connected = false := by
      cases connected : s.world.connected with
      | false => rfl
      | true => exact nomatch (unconnected connected).symm.trans known
    exact .inr ⟨offline, now⟩

theorem Dropped.whole (dropped : Dropped s t) (whole : Whole (core s)) : Whole (core t) := by
  cases dropped with
  | played _ now =>
    rw [now]
    exact .of_silent rfl
  | recorded _ _ stopped now _ =>
    rw [now]
    exact .of_silent stopped.silent
  | left quiet unconnected now =>
    rw [now]
    intro file doing
    have offline : s.world.connected = false := by
      cases connected : s.world.connected with
      | false => rfl
      | true => exact nomatch (unconnected connected).symm.trans (congrArg Demo.Activity.isRecording doing)
    obtain ⟨frames, holds, none⟩ := whole file doing
    exact ⟨frames, holds, fun _ => none offline⟩

theorem Move.whole (move : Move s t) (linked : (core s).Linked) (whole : Whole (core s))
    (calm : ¬ Overwritten s t) : Whole (core t) := by
  cases move with
  | around same =>
    rw [same]
    exact whole
  | accept quiet now => exact whole.of_same calm (by rw [now]) (by rw [now]) (by rw [now]; exact fun gone => nomatch gone)
  | timing playing now =>
    rw [now]
    exact .of_silent (Core.recording_of_playing (c := core s) playing)
  | saveTape ran =>
    have now := (saveTape_spec ran).elsewhere
    exact whole.of_same calm (by rw [now]) (by rw [now]) (by rw [now]; exact id)
  | finishTape ran =>
    have now := (finishTape_spec ran).elsewhere
    exact whole.of_same calm (by rw [now]) (by rw [now]) (by rw [now]; exact id)
  | writeConfig ran =>
    obtain ⟨text, now⟩ := of_spec (writeConfig_spec s) ran
    exact whole.of_same calm (by rw [now]) (by rw [now]) (by rw [now]; exact id)
  | stopPlayback ran =>
    rw [of_spec (stopPlayback_spec s) ran]
    split
    · exact .of_silent rfl
    · exact whole
  | stopRecording ran => exact .of_silent (of_spec (stopRecording_spec s) ran).silent
  | disconnect ran => exact (of_spec (disconnect_spec s) ran).whole whole
  | playDemo ran =>
    cases played_of_ok ran with
    | opened _ now _ =>
      rw [now]
      exact .of_silent rfl
    | missing dropped now _ =>
      rw [now]
      exact dropped.whole whole
  | beginRecording quiet ran =>
    intro file doing
    obtain ⟨same, holds⟩ := (of_spec (beginRecording_spec _ _ s) ran).holds quiet doing
    refine ⟨[], ?_, fun _ => rfl⟩
    rw [show (core t).track = _ from same, List.flatMap_nil, List.append_nil]
    exact holds
  | recordMessage joined ran =>
    intro left doing
    have written := of_spec (recordMessage_spec s) ran
    obtain ⟨file, before, more⟩ := written.holds doing
    obtain ⟨frames, holds, _⟩ := whole file before
    refine ⟨frames ++ [⟨s.world.view.angles, s.world.incoming.written⟩], ?_, fun offline => ?_⟩
    · rw [written.elsewhere]
      change left.Holds t.world.disk _
      simpa [Demo.Frame.encode] using more _ holds
    · rw [written.elsewhere] at offline
      exact nomatch offline.symm.trans (linked.connected joined)
  | demoMessage ran =>
    cases demoMessage_spec ran with
    | nothing same =>
      rw [same]
      exact whole
    | read _ now =>
      rw [now]
      exact .of_silent rfl
    | ended _ now =>
      rw [now]
      exact .of_silent rfl

theorem newline_mem_trackLine (track : Int32) : 10 ∈ Demo.trackLine track := by
  unfold Demo.trackLine Text.encode
  exact List.mem_flatMap.2 ⟨'\n', by simp, by decide⟩

theorem not_terminated_close {file : Writer} {disk : Disk} {track : Int32}
    (holds : file.Holds disk (Demo.trackLine track)) :
    ¬ Terminated track ((file.close disk).contents file.place).bytes := by
  rintro ⟨frames, angles, content⟩
  unfold Disk.contents at content
  rcases holds.close with stored | device
  · rw [stored] at content
    have lengths := congrArg List.length content
    simp [Demo.Frame.encode, Demo.Frame.pieces, farewell] at lengths
  · rw [device] at content
    have newline : (10 : UInt8) ∈ (Packed.zeros blockSize).bytes := by
      rw [content, List.append_assoc]
      exact List.mem_append_left _ (newline_mem_trackLine track)
    rw [Packed.bytes_zeros] at newline
    cases List.eq_of_mem_replicate newline

theorem Played.recording {opened : Bool} (played : Played s t opened) {file : Writer}
    (doing : s.world.demo = .recording file) :
    (core t).demo = (core s).demo ∨ t.world.recording = false ∧ Ending s t file := by
  cases played with
  | @missing m dropped now reports =>
    rcases dropped.ending doing with ⟨_, silent, ends⟩ | ⟨_, still⟩
    · exact .inr ⟨(congrArg Core.recording now).trans silent, ends t (congrArg Core.disk now) reports⟩
    · exact .inl (by rw [now, still])
  | @opened m reader track dropped now reports =>
    refine .inr ⟨congrArg Core.recording now, ?_⟩
    have disk : t.world.disk = m.world.demo.close m.world.disk := congrArg Core.disk now
    rcases dropped.ending doing with ⟨_, silent, ends⟩ | ⟨offline, still⟩
    · exact ends t (disk.trans (close_of_silent silent _)) reports
    · have demo : m.world.demo = .recording file := (congrArg Core.demo still).trans doing
      have same : m.world.disk = s.world.disk := congrArg Core.disk still
      refine .supplanted (congrArg Core.playing now) offline ?_
      rw [disk, demo, same]
      rfl

/-- What a move makes of a demo being recorded: nothing, a frame more, or its end. -/
theorem Move.recording (move : Move s t) {file : Writer} (doing : s.world.demo = .recording file) :
    (core t).demo = (core s).demo ∨ (s.world.socket.isSome = true ∧ Client.recordMessage s = .ok () t) ∨
      t.world.recording = false ∧ Ending s t file := by
  have known : (core s).recording = true := congrArg Demo.Activity.isRecording doing
  have not_playing (playing : s.world.playing = true) : False :=
    nomatch (Core.recording_of_playing (c := core s) playing).symm.trans known
  cases move with
  | around same => exact .inl (by rw [same])
  | accept _ now => exact .inl (by rw [now])
  | timing _ now => exact .inl (by rw [now])
  | saveTape ran => exact .inl (by rw [(saveTape_spec ran).elsewhere])
  | finishTape ran => exact .inl (by rw [(finishTape_spec ran).elsewhere])
  | writeConfig ran =>
    obtain ⟨text, now⟩ := of_spec (writeConfig_spec s) ran
    exact .inl (by rw [now])
  | stopPlayback ran =>
    have now := of_spec (stopPlayback_spec s) ran
    split at now
    · exact (not_playing ‹_›).elim
    · exact .inl (by rw [now])
  | stopRecording ran =>
    have stopped := of_spec (stopRecording_spec s) ran
    have quiet : t.world.playing = false := stopped.playing.trans (Core.playing_of_recording known)
    exact .inr (.inr ⟨stopped.silent, stopped.ending doing rfl id fun playing => nomatch quiet.symm.trans playing⟩)
  | disconnect ran => exact (Played.recording (.missing (of_spec (disconnect_spec s) ran) rfl id) doing).imp_right .inr
  | playDemo ran => exact ((played_of_ok ran).recording doing).imp_right .inr
  | beginRecording quiet _ => exact nomatch quiet.symm.trans known
  | recordMessage linked ran => exact .inr (.inl ⟨linked, ran⟩)
  | demoMessage ran =>
    cases demoMessage_spec ran with
    | nothing same => exact .inl (by rw [same])
    | read playing _ => exact (not_playing playing).elim
    | ended playing _ => exact (not_playing playing).elim

theorem Move.ending (move : Move s t) {file : Writer} (doing : s.world.demo = .recording file)
    (ended : t.world.recording = false) : Ending s t file := by
  have known : (core s).recording = true := congrArg Demo.Activity.isRecording doing
  have goes_on (same : (core t).demo = (core s).demo) : False :=
    nomatch ended.symm.trans ((congrArg Demo.Activity.isRecording same).trans known)
  rcases move.recording doing with same | ⟨_, ran⟩ | ⟨_, ending⟩
  · exact (goes_on same).elim
  · cases of_spec (recordMessage_spec s) ran with
    | nothing _ same => exact (goes_on (by rw [same])).elim
    | kept _ _ now => exact nomatch ended.symm.trans (congrArg Core.recording now)
    | failed _ _ _ reported => exact .reported reported
  · exact ending

theorem Move.finishes (move : Move s t) (whole : Whole (core s)) {file : Writer}
    (recording : s.world.demo = .recording file) (ended : t.world.recording = false) :
    Reported s t ∨ (Terminated s.world.track (t.world.disk.contents file.place).bytes ↔
      ¬ (t.world.playing = true ∧ s.world.connected = false)) := by
  obtain ⟨frames, holds, none⟩ := whole file recording
  cases move.ending recording ended with
  | reported reported => exact .inl reported
  | finished wrote now apart =>
    refine .inr ⟨fun _ both => ?_, fun _ => ?_⟩
    · exact nomatch both.2.symm.trans (apart both.1)
    · rw [now]
      exact ⟨frames, s.world.view.angles, finishDemo_content holds wrote⟩
  | supplanted playing offline now =>
    rw [none offline, List.flatMap_nil, List.append_nil] at holds
    rw [now]
    exact .inr ⟨fun ends => absurd ends (not_terminated_close holds), fun other => absurd ⟨playing, offline⟩ other⟩

/-- Neither the configuration nor what is recorded of the session is written to the place. -/
structure Apart (c : Core) (place : Place) : Prop where
  config : place ≠ Path.landing c.disk.home (c.folders.writePath configName)
  tape : ∀ tape, c.tapeFile = some tape → place ≠ tape.place

theorem Taped.beside (taped : Taped s t) : t.world.disk = s.world.disk ∧ t.world.tapeFile = s.world.tapeFile ∨
    ∃ tape left, s.world.tapeFile = some tape ∧ t.world.tapeFile = some left ∧
      Writer.Beside (tape, s.world.disk) (left, t.world.disk) := by
  cases taped with
  | nothing same => exact .inl ⟨congrArg Core.disk same, congrArg Core.tapeFile same⟩
  | @wrote tape left disk act taping kind ran now =>
    have acts : Writer.Local act := by
      rcases kind with rfl | ⟨pieces, rfl⟩
      · exact .flush
      · exact .writeAll pieces
    have beside := acts (tape, s.world.disk)
    rw [ran] at beside
    refine .inr ⟨tape, left, taping, congrArg Core.tapeFile now, ?_⟩
    rw [show t.world.disk = disk from congrArg Core.disk now]
    exact beside

theorem Taped.entry (taped : Taped s t) {place : Place} (apart : Apart (core s) place) :
    t.world.disk.entryAt place = s.world.disk.entryAt place := by
  rcases taped.beside with ⟨disk, _⟩ | ⟨tape, _, taping, _, beside⟩
  · rw [disk]
  · exact beside.others place (apart.tape tape taping)

theorem Taped.apart (taped : Taped s t) {place : Place} (apart : Apart (core s) place) : Apart (core t) place := by
  rw [taped.elsewhere]
  rcases taped.beside with ⟨disk, file⟩ | ⟨tape, left, taping, file, beside⟩
  · rw [disk, file]
    exact apart
  · refine ⟨?_, ?_⟩
    · rw [show t.world.disk.home = s.world.disk.home from beside.home]
      exact apart.config
    · rintro other now
      cases file.symm.trans now
      rw [show left.place = tape.place from beside.place]
      exact apart.tape tape taping

theorem saveText_same {place : Place} {path : Path} {disk : Disk} (text : Text) (there : disk.entryAt place ≠ none)
    (ne : place ≠ Path.landing disk.home path) : Disk.Same place disk (Act.final (saveText path text disk)) := by
  refine .bind (Writer.create_same path _ there ne) fun file m made _ => ?_
  rw [← Writer.place_create made] at ne
  exact .bind (Writer.run_same .flush file m ne) fun _ _ _ _ => .refl place _

/-- Only the configuration and what is recorded of the session can come to the file of a demo being recorded, now or
later. -/
theorem Move.avoids (move : Move s t) {file : Writer} {bytes : Bytes} (holds : file.Holds s.world.disk bytes)
    (recording : s.world.demo = .recording file) (still : t.world.demo = .recording file)
    (apart : Apart (core s) file.place) :
    t.world.disk.entryAt file.place = s.world.disk.entryAt file.place ∧ Apart (core t) file.place := by
  have known : (core s).recording = true := congrArg Demo.Activity.isRecording recording
  have quiet : (core s).playing = false := Core.playing_of_recording known
  have of_same (folders : (core t).folders = (core s).folders) (disk : (core t).disk = (core s).disk)
      (tape : (core t).tapeFile = (core s).tapeFile) :
      t.world.disk.entryAt file.place = s.world.disk.entryAt file.place ∧ Apart (core t) file.place := by
    refine ⟨congrArg (fun disk : Disk => disk.entryAt file.place) disk, ?_, ?_⟩
    · rw [folders, disk]
      exact apart.config
    · rw [tape]
      exact apart.tape
  have of_dropped {u : Session} (dropped : Dropped s u) (same : core t = core u) :
      t.world.disk.entryAt file.place = s.world.disk.entryAt file.place ∧ Apart (core t) file.place := by
    have goes_on : (core u).recording = true := (congrArg Core.recording same).symm.trans
      (congrArg Demo.Activity.isRecording still)
    cases dropped with
    | played _ now => exact nomatch goes_on.symm.trans (congrArg Core.recording now)
    | recorded _ _ stopped now _ =>
      rw [now] at goes_on
      exact nomatch stopped.silent.symm.trans goes_on
    | left _ _ now => exact of_same (by rw [same, now]) (by rw [same, now]) (by rw [same, now])
  cases move with
  | around same => exact of_same (by rw [same]) (by rw [same]) (by rw [same])
  | accept _ now => exact of_same (by rw [now]) (by rw [now]) (by rw [now])
  | timing _ now => exact of_same (by rw [now]) (by rw [now]) (by rw [now])
  | saveTape ran => exact ⟨(saveTape_spec ran).entry apart, (saveTape_spec ran).apart apart⟩
  | finishTape ran => exact ⟨(finishTape_spec ran).entry apart, (finishTape_spec ran).apart apart⟩
  | writeConfig ran =>
    obtain ⟨text, now⟩ := of_spec (writeConfig_spec s) ran
    have same := saveText_same text holds.there apart.config
    have disk : t.world.disk = Act.final (saveText ((core s).folders.writePath configName) text s.world.disk) :=
      congrArg Core.disk now
    refine ⟨by rw [disk, same.entry], ?_, ?_⟩
    · rw [now]
      exact fun landed => apart.config (landed.trans (congrArg (Path.landing · _) same.home))
    · rw [now]
      exact apart.tape
  | stopPlayback ran =>
    have now := of_spec (stopPlayback_spec s) ran
    rw [if_neg (by rw [show s.world.playing = false from quiet]; decide)] at now
    exact of_same (by rw [now]) (by rw [now]) (by rw [now])
  | stopRecording ran =>
    have silent := (of_spec (stopRecording_spec s) ran).silent
    exact nomatch silent.symm.trans (congrArg Demo.Activity.isRecording still)
  | disconnect ran => exact of_dropped (of_spec (disconnect_spec s) ran) rfl
  | playDemo ran =>
    cases played_of_ok ran with
    | opened _ now _ => exact nomatch still.symm.trans (congrArg Core.demo now)
    | missing dropped now _ => exact of_dropped dropped now
  | beginRecording silent ran => exact nomatch known.symm.trans silent
  | recordMessage _ ran =>
    cases of_spec (recordMessage_spec s) ran with
    | nothing silent _ => exact nomatch known.symm.trans silent
    | failed _ _ now _ => exact nomatch still.symm.trans (congrArg Core.demo now)
    | @kept before left disk doing wrote now =>
      -- a frame that was written makes the file longer, so it cannot be the file from before
      cases recording.symm.trans doing
      cases still.symm.trans (congrArg Core.demo now)
      have longer := (holds.writeAll wrote).length
      rw [List.length_append, holds.length] at longer
      simp [Demo.Frame.pieces] at longer
  | demoMessage ran =>
    cases demoMessage_spec ran with
    | nothing same => exact of_same (by rw [same]) (by rw [same]) (by rw [same])
    | read playing _ => exact nomatch quiet.symm.trans playing
    | ended playing _ => exact nomatch quiet.symm.trans playing

theorem Move.unchanged (move : Move s t) {file : Writer} {bytes : Bytes} (holds : file.Holds s.world.disk bytes)
    (recording : s.world.demo = .recording file) (still : t.world.demo = .recording file)
    (apart : Apart (core s) file.place) : t.world.disk.entryAt file.place = s.world.disk.entryAt file.place :=
  (move.avoids holds recording still apart).1

theorem Move.not_overwritten (move : Move s t) (whole : Whole (core s))
    (apart : ∀ file, s.world.demo = .recording file → Apart (core s) file.place) : ¬ Overwritten s t := by
  rintro ⟨file, recording, still, changed⟩
  obtain ⟨frames, holds, _⟩ := whole file recording
  exact changed (move.unchanged holds recording still (apart file recording))

theorem Trail.linked {trail : List Session} (leads : Trail s trail t) (linked : (core s).Linked) : (core t).Linked := by
  induction leads with
  | here => exact linked
  | step move _ ih => exact ih (move.linked linked)

theorem Trail.whole {trail : List Session} (leads : Trail s trail t) (linked : (core s).Linked)
    (whole : Whole (core s)) (calm : trail.IsChain fun u v => ¬ Overwritten u v) : Whole (core t) := by
  induction leads with
  | here => exact whole
  | @step s m t later move onward ih =>
    obtain ⟨rest, rfl⟩ : ∃ rest, later = m :: rest := by cases onward <;> exact ⟨_, rfl⟩
    obtain ⟨here, calm⟩ := List.isChain_cons_cons.1 calm
    exact ih (move.linked linked) (move.whole linked whole here) calm

/-- Every run goes by moves from state to state. Along a trail from before a recording on which nothing else is written
to its file, a move that ends the recording reports a failure or leaves a terminated demo, with one exception: to play
a demo while there is no connection leaves the demo unterminated. What else could come to the file is only the
configuration or what is recorded of the session. -/
theorem finished_demo_terminated_iff {s : Session} (fresh : Fresh s) :
    (∀ inputs, Course s (Input.states inputs s)) ∧
    ∀ m trail u t file, Moves s m → m.world.recording = false → Trail m trail u →
      trail.IsChain (fun v w => ¬ Overwritten v w) → Move u t → u.world.demo = .recording file →
        (t.world.recording = false →
          Reported u t ∨ (Terminated u.world.track (t.world.disk.contents file.place).bytes ↔
            ¬ (t.world.playing = true ∧ u.world.connected = false))) ∧
        (Overwritten u t → ¬ Apart (core u) file.place) := by
  refine ⟨fun inputs => Walks.states inputs fresh.ready, ?_⟩
  rintro m trail u t file ⟨before, leads⟩ silent onward calm move recording
  have linked : (core m).Linked := leads.linked (.of_unlinked fresh.socket)
  have whole : Whole (core u) := onward.whole linked (.of_silent silent) calm
  constructor
  · intro ended
    exact move.finishes whole recording ended
  · intro overwritten apart
    refine move.not_overwritten whole ?_ overwritten
    rintro _ doing
    cases recording.symm.trans doing
    exact apart

/-- A recording is begun without a connection, and a demo is played: the track line stays alone in the file. -/
theorem supplanted_recording_unterminated : ∃ u t file, Trail demoStart [demoStart, u] u ∧ Move u t ∧
    u.world.demo = .recording file ∧ t.world.recording = false ∧ t.world.playing = true ∧ u.world.connected = false ∧
    (t.world.disk.contents file.place).bytes = [45, 49, 10] ∧
    (Reported u t ∨ (Terminated u.world.track (t.world.disk.contents file.place).bytes ↔
      ¬ (t.world.playing = true ∧ u.world.connected = false))) := by
  have fine : Act.ends (fun _ u => u.world.recording && !u.world.connected && Act.ends (fun _ t =>
      t.world.playing && !t.world.recording &&
        (t.world.disk.contents ["base".toList, "r.dem".toList]).bytes == [45, 49, 10]) (playDemo "a.dem" u))
      (beginRecording "/base/r.dem" (-1) demoStart) = true := by decide +kernel
  obtain ⟨_, u, begun, fine⟩ := Act.ok_of_ends fine
  simp only [Bool.and_eq_true, Bool.not_eq_true'] at fine
  obtain ⟨⟨recording, offline⟩, fine⟩ := fine
  obtain ⟨opened, t, played, fine⟩ := Act.ok_of_ends fine
  simp only [Bool.and_eq_true, Bool.not_eq_true', beq_iff_eq] at fine
  obtain ⟨⟨playing, silent⟩, content⟩ := fine
  have leads : Trail demoStart [demoStart, u] u := .step (.beginRecording rfl begun) .here
  have calm : [demoStart, u].IsChain fun v w => ¬ Overwritten v w := by
    refine .cons_cons ?_ (.singleton u)
    rintro ⟨file, doing, _⟩
    cases doing
  cases of_spec (beginRecording_spec _ _ demoStart) begun with
  | refused _ now => exact nomatch recording.symm.trans (congrArg Core.recording now)
  | @opened file disk made now =>
    have doing : u.world.demo = .recording file := congrArg Core.demo now
    have place : file.place = ["base".toList, "r.dem".toList] := Writer.place_create made
    have finished := (finished_demo_terminated_iff fresh_demoStart).2 demoStart _ u t file .refl rfl leads calm
      (.playDemo played) doing
    rw [← place] at content
    exact ⟨u, t, file, leads, .playDemo played, doing, silent, playing, offline, content, finished.1 silent⟩

end GameHost.Client
