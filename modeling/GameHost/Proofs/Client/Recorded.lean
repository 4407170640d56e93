import GameHost.Proofs.Client.Finished
import GameHost.Proofs.Demo.ReadBack

/-!
What is recorded and what of it is read back. A message may be as long as can be received, but a frame is read back
only if its message is within the limit of a demo, and the first that is not ends the reading with a fault.
-/
namespace GameHost
open GameHost.Network (Socket Driver Loopback reliable unreliable)

namespace Client

/-- A demo of a track is being recorded, from a session on and with these frames so far, and nothing else has changed
its file. -/
inductive Recorded (origin : Session) (track : Int32) : List Demo.Frame → Session → Prop where
  | begun {s t : Session} {path : Path} (before : Deeds origin s) (silent : s.world.recording = false)
      (ran : beginRecording path track s = .ok () t) (recording : t.world.recording = true) : Recorded origin track [] t
  | noted {frames : List Demo.Frame} {s t : Session} (before : Recorded origin track frames s)
      (linked : s.world.socket.isSome = true) (ran : recordMessage s = .ok () t) (recording : t.world.recording = true) :
      Recorded origin track (frames ++ [⟨s.world.view.angles, s.world.incoming.written⟩]) t
  | beside {frames : List Demo.Frame} {s t : Session} (before : Recorded origin track frames s) (deed : Deed s t)
      (still : t.world.demo = s.world.demo) (calm : ¬ Overwritten s t) : Recorded origin track frames t

variable {origin s t : Session} {track : Int32} {frames : List Demo.Frame}

theorem Recorded.deeds (recorded : Recorded origin track frames s) : Deeds origin s := by
  induction recorded with
  | begun before silent ran _ =>
    exact before.trans (.single (.of_aside (.beginRecording silent ran) ((Beside.beginRecording _ _).of_ok ran)))
  | noted _ linked ran _ ih =>
    exact ih.trans (.single (.of_aside (.recordMessage linked ran) (Beside.recordMessage.of_ok ran)))
  | beside _ deed _ _ ih => exact ih.trans (.single deed)

theorem file_of_recording (recording : s.world.recording = true) : ∃ file, s.world.demo = .recording file := by
  unfold Client.recording at recording
  cases doing : s.world.demo with
  | recording file => exact ⟨file, rfl⟩
  | idle | playing file =>
    rw [doing] at recording
    cases recording

/-- The track line and the frames so far are in the file or held for it. -/
theorem Recorded.holds (recorded : Recorded origin track frames s) : ∃ file, s.world.demo = .recording file ∧
    file.Holds s.world.disk (Demo.trackLine track ++ frames.flatMap Demo.Frame.encode) := by
  induction recorded with
  | @begun _ t _ _ silent ran recording =>
    obtain ⟨file, doing⟩ := file_of_recording recording
    refine ⟨file, doing, ?_⟩
    simpa using ((of_spec (beginRecording_spec _ _ _) ran).holds silent doing).2
  | @noted _ s t _ _ ran recording ih =>
    obtain ⟨file, doing, holds⟩ := ih
    obtain ⟨left, after⟩ := file_of_recording recording
    obtain ⟨other, before, more⟩ := (of_spec (recordMessage_spec s) ran).holds after
    cases doing.symm.trans before
    exact ⟨left, after, by simpa [Demo.Frame.encode] using more _ holds⟩
  | @beside _ s t _ _ still calm ih =>
    obtain ⟨file, doing, holds⟩ := ih
    have after : t.world.demo = .recording file := still.trans doing
    exact ⟨file, after, holds_of_calm holds doing after calm⟩

/-- As long as a recording goes on and nothing else changes its file, a deed adds a frame or none. -/
theorem Recorded.onward (recorded : Recorded origin track frames s) (deed : Deed s t) (recording : t.world.recording = true)
    (calm : ¬ Overwritten s t) : ∃ more, Recorded origin track (frames ++ more) t := by
  obtain ⟨file, doing, _⟩ := recorded.holds
  rcases deed.move.recording doing with still | ⟨linked, ran⟩ | ⟨silent, _⟩
  · exact ⟨[], by simpa using recorded.beside deed still calm⟩
  · exact ⟨_, recorded.noted linked ran recording⟩
  · exact nomatch silent.symm.trans recording

/-- The demo goes to this file, and nothing but the demo does. -/
structure Alone (origin : Session) (track : Int32) (frames : List Demo.Frame) (file : Writer) (s : Session) : Prop where
  recorded : Recorded origin track frames s
  doing : s.world.demo = .recording file
  apart : Apart (core s) file.place

namespace Alone

variable {file : Writer}

/-- What is recorded of the session meanwhile is nothing to the demo. -/
theorem taped (alone : Alone origin track frames file s) (deed : Deed s t) (taped : Taped s t) :
    Alone origin track frames file t := by
  have still : t.world.demo = s.world.demo := congrArg Core.demo taped.elsewhere
  refine ⟨alone.recorded.beside deed still ?_, still.trans alone.doing, taped.apart alone.apart⟩
  rintro ⟨_, doing, _, changed⟩
  cases alone.doing.symm.trans doing
  exact changed (taped.entry alone.apart)

theorem of_still (alone : Alone origin track frames file s) (same : still t = still s) :
    Alone origin track frames file t :=
  alone.taped (.of_still same) (.nothing (core_of_still same))

theorem receive (alone : Alone origin track frames file s) {net : Driver} {socket : Socket} {kind : Int32}
    (ran : receive net socket s = .ok kind t) : Alone origin track frames file t := by
  obtain ⟨_, m, taken, ran⟩ := Act.bind_ok.1 ran
  obtain ⟨_, n, saved, ran⟩ := Act.bind_ok.1 ran
  cases ran
  exact (alone.of_still ((Plain.taken net socket).of_ok taken)).taped
    (.of_aside (.saveTape saved) (Beside.saveTape.of_ok saved)) (saveTape_spec saved)

/-- The message that the client takes is the last frame of the demo. -/
theorem networkMessage (alone : Alone origin track frames file s) {socket : Socket} {fuel : Nat} {kind : Int32}
    (linked : s.world.socket.isSome = true) (ran : networkMessage socket fuel s = .ok kind t)
    (sort : kind = reliable ∨ kind = unreliable) (recording : t.world.recording = true) :
    ∃ frame, frame.data = t.world.incoming.written ∧ Recorded origin track (frames ++ [frame]) t := by
  induction fuel generalizing s with
  | zero => cases ran
  | succ fuel ih =>
    unfold Client.networkMessage at ran
    rw [ask_at] at ran
    cases net : s.world.net with
    | none =>
      rw [net] at ran
      cases ran
      rcases sort with sort | sort <;> cases sort
    | some driver =>
      rw [net] at ran
      obtain ⟨got, m, received, ran⟩ := Act.bind_ok.1 ran
      have still := alone.receive received
      have joined : m.world.socket.isSome = true := by
        have same : (core m).socket = (core s).socket := by rw [(receive_taped received).elsewhere]
        exact (congrArg Option.isSome same).trans linked
      split at ran
      · rename_i other
        cases ran
        rcases sort with rfl | rfl <;> exact absurd other (by decide)
      · rw [ask_at] at ran
        split at ran
        · rw [print_at] at ran
          refine ih ?_ ?_ ran
          · exact still.of_still rfl
          · exact joined
        · obtain ⟨_, n, noted, ran⟩ := Act.bind_ok.1 ran
          cases ran
          have same := congrArg Aside.incoming (Beside.recordMessage.of_ok noted)
          exact ⟨_, (congrArg Message.Buffer.written same).symm, still.recorded.noted joined noted recording⟩

theorem nextMessage (alone : Alone origin track frames file s) {kind : Int32} (ran : nextMessage s = .ok kind t)
    (sort : kind = reliable ∨ kind = unreliable) (recording : t.world.recording = true) :
    ∃ frame, frame.data = t.world.incoming.written ∧ Recorded origin track (frames ++ [frame]) t := by
  unfold Client.nextMessage at ran
  rw [ask_at] at ran
  split at ran
  · rename_i playing
    have known : (core s).recording = true := congrArg Demo.Activity.isRecording alone.doing
    exact nomatch (Core.recording_of_playing (c := core s) playing).symm.trans known
  · have none_heard (ran : (pure 0 : Act Session Int32) s = .ok kind t) : False := by
      cases ran
      rcases sort with sort | sort <;> cases sort
    cases net : s.world.net with
    | none =>
      rw [net] at ran
      exact (none_heard ran).elim
    | some driver =>
      cases linked : s.world.socket with
      | none =>
        rw [net, linked] at ran
        exact (none_heard ran).elim
      | some socket =>
        rw [net, linked] at ran
        exact alone.networkMessage (by rw [linked]; rfl) ran sort recording

end Alone

theorem Recorded.short (recorded : Recorded origin track frames s) :
    ∀ frame ∈ frames, frame.data.length ≤ origin.world.incoming.capacity := by
  induction recorded with
  | begun _ _ _ _ => simp
  | noted before _ _ _ ih =>
    intro frame member
    rcases List.mem_append.1 member with earlier | last
    · exact ih frame earlier
    · cases List.mem_singleton.1 last
      rw [Message.Buffer.length_written, ← before.deeds.capacity]
      exact Nat.le_add_right _ _
  | beside _ _ _ _ ih => exact ih

/-- What is read of a demo that is finished: all its frames and the last one, or those before the first whose message is
over the limit, and then a fault. -/
structure ReadBack (disk : Disk) (place : Place) (frames : List Demo.Frame) : Prop where
  all : ∃ last : Demo.Frame, last.data = farewell ∧
    (Demo.Reads disk (Demo.opened disk place) (frames ++ [last]) none ↔
      ∀ frame ∈ frames, frame.data.length ≤ Demo.messageLimit)
  fault : ∀ early long later, frames = early ++ long :: later →
    (∀ frame ∈ early, frame.data.length ≤ Demo.messageLimit) → Demo.messageLimit < long.data.length →
      Demo.Reads disk (Demo.opened disk place) early (some (.frameTooLong (Int32.ofNat long.data.length)))

/-- What has a member over the limit has a first one. -/
theorem exists_first_over {frame : Demo.Frame} (member : frame ∈ frames) (beyond : Demo.messageLimit < frame.data.length) :
    ∃ early long later, frames = early ++ long :: later ∧
      (∀ other ∈ early, other.data.length ≤ Demo.messageLimit) ∧ Demo.messageLimit < long.data.length := by
  induction frames with
  | nil => cases member
  | cons first rest ih =>
    by_cases here : Demo.messageLimit < first.data.length
    · exact ⟨[], first, rest, rfl, by simp, here⟩
    · rcases List.mem_cons.1 member with rfl | later
      · exact absurd beyond here
      · obtain ⟨early, long, others, rfl, short, found⟩ := ih later
        refine ⟨first :: early, long, others, rfl, ?_, found⟩
        rintro other (_ | ⟨_, there⟩)
        · exact Nat.not_lt.1 here
        · exact short other there

theorem readBack_of_content {disk : Disk} {place : Place} {angles : Angles}
    (possible : ∀ frame ∈ frames, frame.data.length ≤ incomingLimit)
    (content : (disk.contents place).bytes =
      Demo.trackLine track ++ frames.flatMap Demo.Frame.encode ++ Demo.Frame.encode ⟨angles, farewell⟩) :
    ReadBack disk place frames := by
  rw [List.append_assoc] at content
  have there := Demo.rest_opened content
  have fault : ∀ early long later, frames = early ++ long :: later →
      (∀ frame ∈ early, frame.data.length ≤ Demo.messageLimit) → Demo.messageLimit < long.data.length →
        Demo.Reads disk (Demo.opened disk place) early (some (.frameTooLong (Int32.ofNat long.data.length))) := by
    rintro early long later rfl within beyond
    have small : long.data.length < 2 ^ 31 := Nat.lt_of_le_of_lt (possible long (by simp)) (by decide)
    rw [List.flatMap_append, List.flatMap_cons, List.append_assoc, List.append_assoc] at there
    exact Demo.reads_to_fault within beyond small there
  refine ⟨⟨⟨angles, farewell⟩, rfl, ?_, ?_⟩, fault⟩
  · intro reads frame member
    by_contra beyond
    obtain ⟨early, long, later, split, within, first⟩ := exists_first_over member (Nat.not_le.1 beyond)
    exact nomatch (reads.unique (fault early long later split within first)).2
  · intro within
    refine Demo.reads_all ?_ (by simpa using there)
    intro frame member
    rcases List.mem_append.1 member with recorded | last
    · exact within frame recorded
    · cases List.mem_singleton.1 last
      exact (by decide : farewell.length ≤ Demo.messageLimit)

/-- Nothing is wrong with the disk: the message is in the recording or held for it. -/
theorem recordMessage_of_ordinary {file : Writer} (recording : s.world.demo = .recording file)
    (ordinary : Writer.Ordinary (file, s.world.disk)) : ∃ left t, recordMessage s = .ok () t ∧
      t.world.demo = .recording left ∧ Writer.Ordinary (left, t.world.disk) := by
  obtain ⟨t, ran, written⟩ := recordMessage_spec s
  obtain ⟨⟨left, disk⟩, wrote, still⟩ :=
    Writer.Succeeds.writeAll (Demo.Frame.pieces ⟨s.world.view.angles, s.world.incoming.written⟩) _ ordinary
  cases written with
  | nothing quiet _ => exact nomatch quiet.symm.trans (congrArg Demo.Activity.isRecording recording)
  | failed doing failed _ _ =>
    cases recording.symm.trans doing
    cases wrote.symm.trans failed
  | kept doing kept now =>
    cases recording.symm.trans doing
    cases wrote.symm.trans kept
    refine ⟨left, t, ran, congrArg Core.demo now, ?_⟩
    rw [show t.world.disk = disk from congrArg Core.disk now]
    exact still

theorem stopRecording_of_ordinary {file : Writer} (recording : s.world.demo = .recording file)
    (ordinary : Writer.Ordinary (file, s.world.disk)) : ∃ t, stopRecording s = .ok () t ∧
      t.world.recording = false ∧ t.world.playing = false ∧
      t.shell.console = s.shell.console.print "Completed demo\n" := by
  obtain ⟨⟨left, disk⟩, wrote, _⟩ :=
    (Writer.Succeeds.bind (.writeAll _) .flush : Writer.Succeeds (finishDemo s.world.view.angles)) _ ordinary
  unfold stopRecording
  rw [ask_at, recording]
  exact ⟨_, (Act.bind_of_ok (onDemoFile_of_ok wrote)).trans rfl, rfl, rfl, rfl⟩

theorem not_reported_of_completed (printed : t.shell.console = s.shell.console.print "Completed demo\n") :
    ¬ Reported s t := by
  rintro ⟨before, fault, after, console⟩
  have pieces := congrArg Console.pieces (printed.symm.trans console)
  rw [Console.pieces_foldl_print, Console.pieces_print, ← List.singleton_append, List.append_cancel_right_eq] at pieces
  have member : failureReport fault ∈ (before ++ failureReport fault :: after).reverse := by simp
  rw [← pieces, List.mem_singleton] at member
  have first : some 'E' = some 'C' := congrArg List.head? member
  cases first

section

variable {network after : Loopback} {socket : Socket} {session : Int64} {kind : Int32} {message : Bytes}

theorem supplied_loopback (c : Client) (network : Loopback) : c.supplied (.loopback network) = .loopback network := by
  unfold Client.supplied
  split <;> rfl

theorem receive_of_delivery (waiting : network.take socket.session = (some ⟨session, kind, message⟩, after))
    (fits : message.length ≤ s.world.incoming.capacity) :
    receive (.loopback network) socket s = .ok kind { s with world := { s.world with
      net := some (.loopback after), incoming := s.world.incoming.holding message } } := by
  have got : Driver.receive socket (.loopback network) s.world.incoming =
      .ok kind (.loopback after, s.world.incoming.holding message) := by
    unfold Driver.receive
    rw [waiting]
    dsimp only
    rw [Message.Buffer.fill_ok.2 ⟨fits, rfl⟩]
  let heard : Session := { s with world := { s.world with
    net := some (.loopback after), incoming := s.world.incoming.holding message } }
  have saved : saveTape heard = .ok () heard := by
    unfold saveTape
    rw [ask_at]
    cases heard.world.tapeFile <;> rfl
  unfold Client.receive
  refine (Act.bind_of_ok (?_ : _ = EStateM.Result.ok kind heard)).trans ?_
  · refine Act.within_ok.2 ⟨(.loopback after, s.world.incoming.holding message), ?_, rfl⟩
    dsimp only
    rw [supplied_loopback]
    exact got
  · rw [Act.bind_of_ok saved]
    rfl

/-- Nothing is wrong with the disk: a message that waits on the network inside the program is taken and recorded. -/
theorem nextMessage_of_delivery {file : Writer} (recording : s.world.demo = .recording file)
    (ordinary : Writer.Ordinary (file, s.world.disk)) (net : s.world.net = some (.loopback network))
    (joined : s.world.socket = some socket) (waiting : network.take socket.session = (some ⟨session, kind, message⟩, after))
    (sort : kind = reliable ∨ kind = unreliable) (fits : message.length ≤ s.world.incoming.capacity)
    (other : message ≠ keepalive) : ∃ left t, nextMessage s = .ok kind t ∧ t.world.demo = .recording left ∧
      Writer.Ordinary (left, t.world.disk) ∧ t.world.incoming.written = message := by
  let heard : Session := { s with world := { s.world with
    net := some (.loopback after), incoming := s.world.incoming.holding message } }
  obtain ⟨left, t, noted, doing, still⟩ := @recordMessage_of_ordinary heard file recording ordinary
  have held : t.world.incoming.written = message := by
    have same := congrArg Aside.incoming (Beside.recordMessage.of_ok noted)
    exact (congrArg Message.Buffer.written same).trans (Message.Buffer.written_holding _ _)
  refine ⟨left, t, ?_, doing, still, held⟩
  have quiet : s.world.playing = false :=
    Core.playing_of_recording (c := core s) (congrArg Demo.Activity.isRecording recording)
  unfold nextMessage
  rw [ask_at, quiet, net, joined]
  dsimp only
  rw [if_neg Bool.false_ne_true]
  unfold networkMessage
  rw [ask_at, net]
  dsimp only
  rw [Act.bind_of_ok (receive_of_delivery waiting fits)]
  have known : ¬ (kind != reliable && kind != unreliable) = true := by
    rcases sort with sort | sort <;> rw [sort] <;> decide
  rw [if_neg known, ask_at]
  dsimp only
  rw [Message.Buffer.written_holding, if_neg (by simpa using other)]
  exact Act.bind_of_ok noted

end

theorem link_beginRecording (path : Path) (track : Int32) :
    Act.Keeps (fun s : Session => (s.world.net, s.world.socket, s.world.incoming)) (beginRecording path track) := by
  unfold beginRecording
  refine .bind (fun _ => rfl) fun _ => .ask_bind fun c => ?_
  split
  · exact .bind (fun _ => rfl) fun _ _ => rfl
  · exact .bind (fun _ => rfl) fun _ _ => rfl

/-- The session, with a connection over which a message is about to come. -/
def expecting (message : Bytes) (s : Session) : Session :=
  { s with
    world := { s.world with
      connected := true
      socket := some ⟨1, []⟩
      net := some (.loopback { Loopback.empty with next := 2, inbox := [⟨1, reliable, message⟩] }) } }

theorem take_expected (message : Bytes) :
    Loopback.take 1 { Loopback.empty with next := 2, inbox := [⟨1, reliable, message⟩] } =
      (some ⟨1, reliable, message⟩, { Loopback.empty with next := 2 }) := rfl

theorem Ready.expecting (ready : Ready s) (message : Bytes) : Ready (expecting message s) := ready

/-- A session that is about to receive a message of one byte more than a frame of a demo may have. -/
def longExpected : Session := expecting (List.replicate 8001 1) demoStart

/-- Every run goes by deeds. A message that is taken while a demo is recorded becomes a frame of it, and what a deed
leaves of a recording is the recording, with a frame more or not. A deed that ends it without a failure, and with the
connection that it was made over, leaves a demo of which all is read back exactly if no message is over the limit of a
demo. Only the configuration or what is recorded of the session can come to the file meanwhile. -/
theorem recorded_demo_read_back_iff {s : Session} (ready : Ready s) (large : s.world.incoming.capacity = incomingLimit) :
    (∀ inputs, Conduct s (Input.states inputs s)) ∧
    ∀ track frames u file, Recorded s track frames u → u.world.demo = .recording file →
      (∀ kind t, nextMessage u = .ok kind t → kind = reliable ∨ kind = unreliable → Apart (core u) file.place →
        t.world.recording = true → ∃ frame, frame.data = t.world.incoming.written ∧
          Recorded s track (frames ++ [frame]) t) ∧
      ∀ t, Deed u t →
        (Overwritten u t → ¬ Apart (core u) file.place) ∧
        (t.world.recording = true → ¬ Overwritten u t → ∃ more, Recorded s track (frames ++ more) t) ∧
        (t.world.recording = false → ¬ Reported u t → ¬ (t.world.playing = true ∧ u.world.connected = false) →
          (∀ frame ∈ frames, frame.data.length ≤ incomingLimit) ∧ ReadBack t.world.disk file.place frames) := by
  refine ⟨fun inputs => Walks.inputs inputs ready, ?_⟩
  intro track frames u file recorded doing
  constructor
  · intro kind t ran sort apart recording
    have alone : Alone s track frames file u := ⟨recorded, doing, apart⟩
    exact alone.nextMessage ran sort recording
  intro t deed
  obtain ⟨other, doing', holds⟩ := recorded.holds
  cases doing.symm.trans doing'
  refine ⟨?_, fun recording calm => recorded.onward deed recording calm, ?_⟩
  · rintro ⟨_, doing', still, changed⟩ apart
    cases doing.symm.trans doing'
    exact changed (deed.move.unchanged holds doing still apart)
  · intro ended unreported calm
    have possible : ∀ frame ∈ frames, frame.data.length ≤ incomingLimit := large ▸ recorded.short
    refine ⟨possible, ?_⟩
    cases deed.move.ending doing ended with
    | reported reported => exact absurd reported unreported
    | supplanted playing offline _ => exact absurd ⟨playing, offline⟩ calm
    | finished wrote now _ =>
      rw [now]
      exact readBack_of_content possible (finishDemo_content holds wrote)

/-- The message is recorded and the recording stopped, and of the demo nothing is read back but the fault. -/
theorem long_message_not_read_back : ∃ frame u v t file, beginRecording "/base/r.dem" (-1) longExpected = .ok () u ∧
    nextMessage u = .ok reliable v ∧ stopRecording v = .ok () t ∧ ¬ Reported v t ∧
    frame.data = List.replicate 8001 1 ∧ Recorded longExpected (-1) [frame] v ∧ v.world.demo = .recording file ∧
    Demo.Reads t.world.disk (Demo.opened t.world.disk file.place) [] (some (.frameTooLong 8001)) := by
  have fine : Act.ends (fun _ u => u.world.recording && u.world.tapeFile.isNone &&
      u.world.disk.entryAt ["base".toList, "r.dem".toList] != some .device &&
      ["base".toList, "r.dem".toList] != Path.landing u.world.disk.home (u.world.folders.writePath configName))
      (beginRecording "/base/r.dem" (-1) longExpected) = true := by decide +kernel
  obtain ⟨_, u, begun, fine⟩ := Act.ok_of_ends fine
  simp only [Bool.and_eq_true, bne_iff_ne] at fine
  obtain ⟨⟨⟨recording, untaped⟩, no_device⟩, other⟩ := fine
  have ready : Ready longExpected := fresh_demoStart.ready.expecting _
  have large : longExpected.world.incoming.capacity = incomingLimit := rfl
  have start : Recorded longExpected (-1) [] u := .begun .here rfl begun recording
  obtain ⟨first, doing, stored, there, _⟩ := start.holds
  have place : first.place = ["base".toList, "r.dem".toList] := by
    cases of_spec (beginRecording_spec _ _ longExpected) begun with
    | refused _ now => exact nomatch recording.symm.trans (congrArg Core.recording now)
    | opened made now =>
      cases doing.symm.trans (congrArg Core.demo now)
      exact Writer.place_create made
  have apart : Apart (core u) first.place := by
    rw [place]
    refine ⟨other, fun tape taping => ?_⟩
    rw [show u.world.tapeFile = some tape from taping] at untaped
    cases untaped
  have ordinary : Writer.Ordinary (first, u.world.disk) := by
    rcases there.entry with file | ⟨_, device⟩
    · exact ⟨_, file⟩
    · exact absurd (place ▸ device) no_device
  -- the message is taken and recorded
  have link := (link_beginRecording _ _).of_ok begun
  have fits : (List.replicate 8001 (1 : UInt8)).length ≤ u.world.incoming.capacity := by
    rw [congrArg (fun l => l.2.2.capacity) link, List.length_replicate]
    exact (by decide : 8001 ≤ incomingLimit)
  have long : List.replicate 8001 (1 : UInt8) ≠ keepalive := fun same => by
    have lengths := congrArg List.length same
    rw [List.length_replicate] at lengths
    cases lengths
  obtain ⟨file, v, ran, doing', ordinary, held⟩ := nextMessage_of_delivery doing ordinary (congrArg (fun l => l.1) link)
    (congrArg (fun l => l.2.1) link) (take_expected _) (.inl rfl) fits long
  obtain ⟨frame, data, whole⟩ := ((recorded_demo_read_back_iff ready large).2 (-1) [] u first start doing).1 reliable v ran
    (.inl rfl) apart (congrArg Demo.Activity.isRecording doing')
  rw [held] at data
  -- the demo ends, and is read back
  obtain ⟨t, stopped, silent, unplayed, printed⟩ := stopRecording_of_ordinary doing' ordinary
  have deed : Deed v t := .of_aside (.stopRecording stopped) (Beside.stopRecording.of_ok stopped)
  have unreported := not_reported_of_completed printed
  have ends := ((recorded_demo_read_back_iff ready large).2 (-1) _ v file whole doing').2 t deed
  have read := ends.2.2 silent unreported fun both => nomatch both.1.symm.trans unplayed
  refine ⟨frame, u, v, t, file, begun, ran, stopped, unreported, data, whole, doing', ?_⟩
  have size : frame.data.length = 8001 := by rw [data, List.length_replicate]
  have fault := read.2.fault [] frame [] rfl (by simp) (by rw [size]; decide)
  rw [size] at fault
  exact fault

end Client

end GameHost
