import GameHost.Proofs.Client.Recorded

/-!
A recording is complete: from its beginning to its end, what is written to it are the messages that looks for one
return, each before it is obeyed, and in the end the frame that ends every demo.
-/
namespace GameHost.Client
open GameHost.Network (Socket Driver reliable unreliable)

/-- A kind of message that is recorded, if a demo is. -/
def recordable (kind : Int32) : Bool := kind == reliable || kind == unreliable

/-- The messages that looks returned, as frames with the view angles of the moment. -/
def heard (seen : List Look) : List Demo.Frame :=
  (seen.filter fun look => recordable look.1).map fun look => ⟨look.2.world.view.angles, look.2.world.incoming.written⟩

/-- These frames were written to a file one by one, whatever else became of the disk meanwhile. -/
inductive Penned : Writer → List Demo.Frame → Writer → Prop where
  | here {file : Writer} : Penned file [] file
  | frame {file m left : Writer} {disk after : Disk} {frame : Demo.Frame} {later : List Demo.Frame}
      (wrote : Writer.writeAll frame.pieces (file, disk) = .ok () (m, after)) (onward : Penned m later left) :
      Penned file (frame :: later) left

theorem Penned.trans {file m left : Writer} {frames more : List Demo.Frame} (first : Penned file frames m)
    (second : Penned m more left) : Penned file (frames ++ more) left := by
  induction first with
  | here => exact second
  | frame wrote _ ih => exact .frame wrote (ih second)

variable {s m t : Session} {file : Writer}

theorem heard_append (seen more : List Look) : heard (seen ++ more) = heard seen ++ heard more := by
  simp [heard]

/-- A demo that is recorded has grown by these frames. The file holds them if it is apart from what else is written. -/
structure Grown (s : Session) (file : Writer) (frames : List Demo.Frame) (t : Session) (left : Writer) : Prop where
  doing : t.world.demo = .recording left
  penned : Penned file frames left
  place : left.place = file.place
  holds : ∀ bytes, Apart (core s) file.place → file.Holds s.world.disk bytes →
    Apart (core t) file.place ∧ left.Holds t.world.disk (bytes ++ frames.flatMap Demo.Frame.encode)

namespace Grown

variable {left mid : Writer} {frames more : List Demo.Frame}

theorem refl (doing : s.world.demo = .recording file) : Grown s file [] s file :=
  ⟨doing, .here, rfl, fun bytes apart holds => ⟨apart, by simpa using holds⟩⟩

theorem trans (first : Grown s file frames m mid) (second : Grown m mid more t left) :
    Grown s file (frames ++ more) t left := by
  refine ⟨second.doing, first.penned.trans second.penned, second.place.trans first.place, ?_⟩
  intro bytes apart holds
  obtain ⟨apart, holds⟩ := first.holds bytes apart holds
  rw [← first.place] at apart
  obtain ⟨apart, holds⟩ := second.holds _ apart holds
  rw [first.place] at apart
  refine ⟨apart, ?_⟩
  rw [List.flatMap_append, ← List.append_assoc]
  exact holds

theorem of_deed (doing : s.world.demo = .recording file) (deed : Deed s t) (same : t.world.demo = s.world.demo) :
    Grown s file [] t file := by
  have still := same.trans doing
  refine ⟨still, .here, rfl, fun bytes apart holds => ⟨(deed.move.avoids holds doing still apart).2, ?_⟩⟩
  obtain ⟨stored, there, whole⟩ := holds
  have entry := deed.move.unchanged ⟨stored, there, whole⟩ doing still apart
  rw [List.flatMap_nil, List.append_nil]
  exact ⟨stored, ⟨there.offset, entry ▸ there.entry⟩, whole⟩

/-- A message that is written is the last frame, if the recording goes on. -/
theorem recordMessage (doing : s.world.demo = .recording file) (ran : recordMessage s = .ok () t)
    (recording : t.world.recording = true) :
    ∃ left, Grown s file [⟨t.world.view.angles, t.world.incoming.written⟩] t left := by
  have same : (⟨(beyond t).world.view.angles, (beyond t).world.incoming.written⟩ : Demo.Frame) =
      ⟨(beyond s).world.view.angles, (beyond s).world.incoming.written⟩ := by
    rw [Confined.recordMessage.of_ok ran]
  change (⟨t.world.view.angles, t.world.incoming.written⟩ : Demo.Frame) =
    ⟨s.world.view.angles, s.world.incoming.written⟩ at same
  rw [same]
  cases of_spec (recordMessage_spec s) ran with
  | nothing quiet _ => exact nomatch quiet.symm.trans (congrArg Demo.Activity.isRecording doing)
  | failed _ _ now _ => exact nomatch recording.symm.trans (congrArg Core.recording now)
  | @kept other left disk before wrote now =>
    cases doing.symm.trans before
    have beside := Writer.Local.writeAll (Demo.Frame.pieces ⟨s.world.view.angles, s.world.incoming.written⟩)
      (file, s.world.disk)
    rw [wrote] at beside
    refine ⟨left, congrArg Core.demo now, .frame wrote .here, beside.place, fun bytes apart holds => ⟨?_, ?_⟩⟩
    · rw [now]
      exact ⟨fun landed => apart.config (landed.trans (congrArg (Path.landing · _) beside.home)), apart.tape⟩
    · rw [show t.world.disk = disk from congrArg Core.disk now]
      simpa [Demo.Frame.encode] using holds.writeAll wrote

end Grown

theorem Reported.after {texts : List Text} (reported : Reported m t)
    (printed : m.shell.console = texts.foldl (fun console text => console.print text) s.shell.console) : Reported s t := by
  obtain ⟨before, fault, after, console⟩ := reported
  refine ⟨texts ++ before, fault, after, ?_⟩
  rw [console, printed, List.append_assoc, List.foldl_append, List.foldl_append, List.foldl_append]

theorem shell_saveTape : Act.Keeps (fun s : Session => s.shell) saveTape := by
  have onTapeFile (file : Writer) (act : FileAct Unit) : Act.Keeps (fun s : Session => s.shell) (onTapeFile file act) := by
    apply Act.Keeps.ask_bind
    intro c
    split
    · exact fun _ => rfl
    · exact .bind (fun _ => rfl) fun _ => .throw _
  apply Act.Keeps.ask_bind
  intro c
  split
  · exact .bind (fun _ => rfl) fun _ => onTapeFile _ _
  · exact .pure _

/-- What comes before a message of the network is written to a demo, if one is recorded. -/
structure Awaited (s t : Session) : Prop where
  demo : t.world.demo = s.world.demo
  grown : ∀ file, s.world.demo = .recording file → Grown s file [] t file
  printed : ∃ texts : List Text,
    t.shell.console = texts.foldl (fun console text => console.print text) s.shell.console

namespace Awaited

theorem refl (s : Session) : Awaited s s := ⟨rfl, fun _ doing => .refl doing, [], rfl⟩

theorem trans (first : Awaited s m) (second : Awaited m t) : Awaited s t := by
  obtain ⟨early, printed⟩ := first.printed
  obtain ⟨later, more⟩ := second.printed
  refine ⟨second.demo.trans first.demo, ?_, early ++ later, ?_⟩
  · intro file doing
    have grown := first.grown file doing
    exact grown.trans (second.grown file grown.doing)
  · rw [more, printed, List.foldl_append]

theorem of_deed (deed : Deed s t) (demo : t.world.demo = s.world.demo) (printed : ∃ texts : List Text,
    t.shell.console = texts.foldl (fun console text => console.print text) s.shell.console) : Awaited s t :=
  ⟨demo, fun _ doing => .of_deed doing deed demo, printed⟩

theorem of_still (same : still t = still s) (printed : ∃ texts : List Text,
    t.shell.console = texts.foldl (fun console text => console.print text) s.shell.console) : Awaited s t :=
  of_deed (.of_still same) (congrArg Core.demo (core_of_still same)) printed

theorem receive {net : Driver} {socket : Socket} {kind : Int32} (ran : receive net socket s = .ok kind t) :
    Awaited s t := by
  obtain ⟨_, m, taken, ran⟩ := Act.bind_ok.1 ran
  obtain ⟨_, n, saved, ran⟩ := Act.bind_ok.1 ran
  cases ran
  have same : t.world.demo = m.world.demo := congrArg Core.demo (saveTape_spec saved).elsewhere
  have first : Awaited s m := by
    refine .of_still ((Plain.taken net socket).of_ok taken) ⟨[], ?_⟩
    obtain ⟨_, _, rfl⟩ := Act.within_ok.1 taken
    rfl
  exact first.trans (.of_deed (.of_aside (.saveTape saved) (Beside.saveTape.of_ok saved)) same
    ⟨[], congrArg Shell.console (shell_saveTape.of_ok saved)⟩)

theorem print (text : Text) (s : Session) : Awaited s { s with shell := s.shell.print text } :=
  .of_still rfl ⟨[text], rfl⟩

end Awaited

/-- A look for a message of the network: none comes that would be recorded, or one that is not just a sign of life comes
and is recorded, if a demo is. -/
inductive Heeded (s t : Session) (kind : Int32) : Prop where
  | passed (other : recordable kind = false) (awaited : Awaited s t)
  | noted {m : Session} (sort : recordable kind = true) (awaited : Awaited s m)
      (alive : m.world.incoming.written ≠ keepalive) (ran : recordMessage m = .ok () t)

theorem Heeded.after {kind : Int32} (awaited : Awaited s m) (heeded : Heeded m t kind) : Heeded s t kind := by
  cases heeded with
  | passed other onward => exact .passed other (awaited.trans onward)
  | noted sort onward alive ran => exact .noted sort (awaited.trans onward) alive ran

theorem networkMessage_heeded {socket : Socket} {fuel : Nat} {kind : Int32} (ran : networkMessage socket fuel s = .ok kind t) :
    Heeded s t kind := by
  induction fuel generalizing s with
  | zero => cases ran
  | succ fuel ih =>
    unfold networkMessage at ran
    rw [ask_at] at ran
    cases net : s.world.net with
    | none =>
      rw [net] at ran
      cases ran
      exact .passed rfl (.refl _)
    | some driver =>
      rw [net] at ran
      obtain ⟨got, m, received, ran⟩ := Act.bind_ok.1 ran
      have awaited := Awaited.receive received
      split at ran
      · rename_i other
        cases ran
        exact .passed (by simpa [recordable] using other) awaited
      · rename_i sort
        rw [ask_at] at ran
        split at ran
        · rw [print_at] at ran
          exact .after (awaited.trans (.print _ m)) (ih ran)
        · rename_i alive
          obtain ⟨_, n, noted, ran⟩ := Act.bind_ok.1 ran
          cases ran
          refine .noted ?_ awaited (by simpa using alive) noted
          simpa [recordable, or_iff_not_imp_left] using sort

theorem nextMessage_heeded {kind : Int32} (quiet : s.world.playing = false) (ran : nextMessage s = .ok kind t) :
    Heeded s t kind := by
  unfold nextMessage at ran
  rw [ask_at, if_neg (by rw [quiet]; decide)] at ran
  cases net : s.world.net with
  | none =>
    rw [net] at ran
    cases ran
    exact .passed rfl (.refl _)
  | some driver =>
    cases linked : s.world.socket with
    | none =>
      rw [net, linked] at ran
      cases ran
      exact .passed rfl (.refl _)
    | some socket =>
      rw [net, linked] at ran
      exact networkMessage_heeded ran

theorem heard_passed {kind : Int32} (other : recordable kind = false) (t : Session) : heard (looks [(.asked kind, t)]) = [] := by
  simp [heard, looks, Note.look?, other]

theorem heard_noted {kind : Int32} (sort : recordable kind = true) (t : Session) :
    heard (looks [(.asked kind, t)]) = [⟨t.world.view.angles, t.world.incoming.written⟩] := by
  simp [heard, looks, Note.look?, sort]

/-- A stride while a demo is recorded adds to it what is heard. -/
theorem Stride.grown {note : Note} (stride : Stride note s t) (other : note ≠ .begun) (doing : s.world.demo = .recording file)
    (recording : t.world.recording = true) : (∃ left, Grown s file (heard (looks [(note, t)])) t left) ∧
      ∀ frame ∈ heard (looks [(note, t)]), frame.data ≠ keepalive := by
  cases stride with
  | aside deed demo _ => exact ⟨⟨file, .of_deed doing deed demo⟩, fun _ none => nomatch none⟩
  | ended _ idle => exact nomatch recording.symm.trans (congrArg Demo.Activity.isRecording idle)
  | begun => exact absurd rfl other
  | played ran =>
    cases played_of_ok ran with
    | opened _ now _ => exact nomatch recording.symm.trans (congrArg Core.recording now)
  | asked ran =>
    have known : (core s).recording = true := congrArg Demo.Activity.isRecording doing
    cases nextMessage_heeded (Core.playing_of_recording known) ran with
    | passed other awaited =>
      rw [heard_passed other]
      exact ⟨⟨file, awaited.grown file doing⟩, fun _ none => nomatch none⟩
    | @noted m sort awaited alive written =>
      have grown := awaited.grown file doing
      obtain ⟨left, more⟩ := Grown.recordMessage grown.doing written recording
      rw [heard_noted sort]
      refine ⟨⟨left, grown.trans more⟩, ?_⟩
      intro frame member
      cases List.mem_singleton.1 member
      have same := congrArg Aside.incoming (Beside.recordMessage.of_ok written)
      exact fun nop => alive ((congrArg Message.Buffer.written same).symm.trans nop)

/-- A demo that is recorded or played was so before, or is begun. -/
theorem Stride.origin {note : Note} (stride : Stride note s t) :
    (t.world.recording = true → s.world.recording = true ∨ note = .begun) ∧
      (t.world.playing = true → s.world.playing = true ∨ note = .played) := by
  have of_demo {note : Note} (same : t.world.demo = s.world.demo) :
      (t.world.recording = true → s.world.recording = true ∨ note = .begun) ∧
        (t.world.playing = true → s.world.playing = true ∨ note = .played) := by
    unfold Client.recording Client.playing
    rw [same]
    exact ⟨.inl, .inl⟩
  have of_idle {note : Note} (idle : t.world.demo = .idle) :
      (t.world.recording = true → s.world.recording = true ∨ note = .begun) ∧
        (t.world.playing = true → s.world.playing = true ∨ note = .played) := by
    unfold Client.recording Client.playing
    rw [idle]
    exact ⟨nofun, nofun⟩
  cases stride with
  | aside _ demo _ => exact of_demo demo
  | ended _ idle => exact of_idle idle
  | begun _ _ recording =>
    exact ⟨fun _ => .inr rfl, fun playing => nomatch playing.symm.trans (Core.playing_of_recording (c := core t) recording)⟩
  | played ran =>
    cases played_of_ok ran with
    | opened _ now _ => exact ⟨fun recording => (nomatch recording.symm.trans (congrArg Core.recording now)), fun _ => .inr rfl⟩
  | asked ran =>
    by_cases playing : s.world.playing = true
    · unfold nextMessage at ran
      rw [ask_at, if_pos playing] at ran
      cases demoMessage_spec ran with
      | nothing same => exact of_demo (congrArg Core.demo same)
      | read _ now =>
        exact ⟨fun recording => (nomatch recording.symm.trans (congrArg Core.recording now)), fun _ => .inl playing⟩
      | ended _ now => exact of_idle (congrArg Core.demo now)
    · cases nextMessage_heeded (by simpa using playing) ran with
      | passed _ awaited => exact of_demo awaited.demo
      | @noted m _ awaited _ written =>
        cases of_spec (recordMessage_spec m) written with
        | nothing _ same => exact of_demo ((congrArg Core.demo same).trans awaited.demo)
        | kept doing _ now =>
          have before : s.world.recording = true := congrArg Demo.Activity.isRecording (awaited.demo.symm.trans doing)
          exact ⟨fun _ => .inl before, fun playing => nomatch playing.symm.trans (congrArg Core.playing now)⟩
        | failed _ _ now _ => exact of_idle (congrArg Core.demo now)

theorem Strides.origin {steps : List (Note × Session)} (strides : Strides s steps t) :
    (t.world.recording = true → s.world.recording = true ∨ ∃ step ∈ steps, step.1 = .begun) ∧
      (t.world.playing = true → s.world.playing = true ∨ ∃ step ∈ steps, step.1 = .played) := by
  induction strides with
  | here => exact ⟨.inl, .inl⟩
  | step stride _ ih =>
    obtain ⟨recorded, played⟩ := stride.origin
    simp only [List.mem_cons, exists_eq_or_imp]
    constructor
    · intro recording
      rcases ih.1 recording with now | later
      · exact (recorded now).imp_right .inl
      · exact .inr (.inr later)
    · intro playing
      rcases ih.2 playing with now | later
      · exact (played now).imp_right .inl
      · exact .inr (.inr later)

theorem Strides.grown {steps : List (Note × Session)} (strides : Strides s steps t)
    (other : ∀ step ∈ steps, step.1 ≠ .begun) (doing : s.world.demo = .recording file)
    (recording : t.world.recording = true) : (∃ left, Grown s file (heard (looks steps)) t left) ∧
      ∀ frame ∈ heard (looks steps), frame.data ≠ keepalive := by
  induction strides generalizing file with
  | here => exact ⟨⟨file, .refl doing⟩, fun _ none => nomatch none⟩
  | @step note s m t later stride onward ih =>
    simp only [List.mem_cons, forall_eq_or_imp] at other
    -- what has ended is not gone on with, as no other recording is begun
    have going : m.world.recording = true := by
      rcases onward.origin.1 recording with before | ⟨_, member, begun⟩
      · exact before
      · exact absurd begun (other.2 _ member)
    obtain ⟨⟨mid, grown⟩, alive⟩ := stride.grown other.1 doing going
    obtain ⟨⟨left, more⟩, later_alive⟩ := ih other.2 grown.doing recording
    rw [← List.singleton_append, looks_append, heard_append]
    refine ⟨⟨left, grown.trans more⟩, fun frame member => ?_⟩
    rcases List.mem_append.1 member with here | there
    · exact alive frame here
    · exact later_alive frame there

/-- A look for a message ends a recording only if the message cannot be written. -/
theorem reported_of_nextMessage {kind : Int32} (doing : s.world.demo = .recording file) (ran : nextMessage s = .ok kind t)
    (ended : t.world.recording = false) : Reported s t := by
  have known : (core s).recording = true := congrArg Demo.Activity.isRecording doing
  cases nextMessage_heeded (Core.playing_of_recording known) ran with
  | passed _ awaited => exact nomatch ended.symm.trans ((congrArg Demo.Activity.isRecording awaited.demo).trans known)
  | @noted m _ awaited _ written =>
    obtain ⟨texts, printed⟩ := awaited.printed
    have going := awaited.demo.trans doing
    cases of_spec (recordMessage_spec m) written with
    | nothing quiet _ => exact nomatch quiet.symm.trans (congrArg Demo.Activity.isRecording going)
    | kept _ _ now => exact nomatch ended.symm.trans (congrArg Core.recording now)
    | failed _ _ _ reported => exact reported.after printed

theorem Stride.ending {note : Note} (stride : Stride note s t) (doing : s.world.demo = .recording file)
    (ended : t.world.recording = false) : Ending s t file := by
  cases stride with
  | aside deed _ _ => exact deed.move.ending doing ended
  | ended deed _ => exact deed.move.ending doing ended
  | begun silent _ _ => exact nomatch silent.symm.trans (congrArg Demo.Activity.isRecording doing)
  | played ran => exact (Move.playDemo ran).ending doing ended
  | asked ran => exact .reported (reported_of_nextMessage doing ran ended)

theorem readWithin_of_recordable {kind : Int32} (ran : nextMessage s = .ok kind t) (sort : recordable kind = true)
    (fuel : Nat) : readWithin (fuel + 1) s = (do
      obeyMessage
      if (← ask).connected then readWithin fuel) t := by
  have known : kind = reliable ∨ kind = unreliable := by simpa [recordable] using sort
  rw [readWithin, Act.bind_of_ok ran]
  rcases known with rfl | rfl <;> rfl

/-- Every run goes by strides, and its looks for a message are among them. From the beginning of a recording on, as long
as it goes on, exactly the messages that the looks return are written to its file, one by one with the angles of the
moment, before they are obeyed; mere signs of life are not among them. When the recording ends, it is as a failed write
is reported, or without a connection as a demo is played, or else nothing more is written than the last frame. If its
file is apart from the configuration and from what is recorded of the session, it holds just this. -/
theorem recording_complete {s : Session} (ready : Ready s) :
    (∀ inputs, Told s (looksAlong inputs s) (Input.states inputs s)) ∧
    ∀ m t, Stride .begun m t → ∃ first, t.world.demo = .recording first ∧
      ∀ steps u, Strides t steps u → (∀ step ∈ steps, step.1 ≠ .begun) → u.world.recording = true →
        ∃ file, u.world.demo = .recording file ∧ Penned first (heard (looks steps)) file ∧
          (∀ frame ∈ heard (looks steps), frame.data ≠ keepalive) ∧
          (∀ kind v, nextMessage u = .ok kind v → recordable kind = true →
            (Reported u v ∨ ∃ left, v.world.demo = .recording left ∧
              Penned first (heard (looks steps) ++ [⟨v.world.view.angles, v.world.incoming.written⟩]) left) ∧
            ∀ fuel, readWithin (fuel + 1) u = (do
              obeyMessage
              if (← ask).connected then readWithin fuel) v) ∧
          ∀ note v, Stride note u v → v.world.recording = false → Ending u v file ∧
            (Apart (core t) first.place → ¬ Reported u v → ¬ (v.world.playing = true ∧ u.world.connected = false) →
              (v.world.disk.contents file.place).bytes = Demo.trackLine t.world.track ++
                (heard (looks steps)).flatMap Demo.Frame.encode ++ Demo.Frame.encode ⟨u.world.view.angles, farewell⟩) := by
  refine ⟨fun inputs => Told.inputs inputs ready, fun m t begun => ?_⟩
  cases begun with
  | @begun _ _ path track silent ran recording =>
  obtain ⟨first, doing⟩ := file_of_recording recording
  refine ⟨first, doing, fun steps u strides other recording => ?_⟩
  obtain ⟨⟨file, grown⟩, alive⟩ := strides.grown other doing recording
  refine ⟨file, grown.doing, grown.penned, alive, fun kind v looked sort => ⟨?_, fun fuel => ?_⟩, fun note v stride ended =>
    ⟨stride.ending grown.doing ended, fun apart unreported calm => ?_⟩⟩
  · by_cases going : v.world.recording = true
    · obtain ⟨⟨left, more⟩, _⟩ := (Stride.asked looked).grown nofun grown.doing going
      rw [heard_noted sort] at more
      exact .inr ⟨left, more.doing, (grown.trans more).penned⟩
    · exact .inl (reported_of_nextMessage grown.doing looked (by simpa using going))
  · exact readWithin_of_recordable looked sort fuel
  · obtain ⟨track, holds⟩ := (of_spec (beginRecording_spec _ _ _) ran).holds silent doing
    have whole := (grown.holds _ apart holds).2
    rw [track]
    cases stride.ending grown.doing ended with
    | reported reported => exact absurd reported unreported
    | supplanted playing offline _ => exact absurd ⟨playing, offline⟩ calm
    | finished wrote now _ =>
      rw [now]
      exact finishDemo_content whole wrote

/-- A message is recorded between the beginning and the end of a demo, and the file holds it and the last frame. -/
theorem delivered_message_recorded : ∃ t u v file, beginRecording "/base/r.dem" (-1) (expecting [1, 1] demoStart) = .ok () t ∧
    nextMessage t = .ok reliable u ∧ stopRecording u = .ok () v ∧ u.world.demo = .recording file ∧
    (v.world.disk.contents file.place).bytes =
      Demo.trackLine (-1) ++ Demo.Frame.encode ⟨.zero, [1, 1]⟩ ++ Demo.Frame.encode ⟨.zero, farewell⟩ := by
  have fine : Act.ends (fun _ t => t.world.recording && t.world.track == -1 && t.world.tapeFile.isNone &&
      ["base".toList, "r.dem".toList] != Path.landing t.world.disk.home (t.world.folders.writePath configName) &&
      Act.ends (fun kind u => kind == reliable && u.world.recording && u.world.view.angles == .zero &&
        u.world.incoming.written == [1, 1] && Act.ends (fun _ v => v.world.demo == .idle &&
          v.shell.console == u.shell.console.print "Completed demo\n") (stopRecording u)) (nextMessage t))
      (beginRecording "/base/r.dem" (-1) (expecting [1, 1] demoStart)) = true := by decide +kernel
  obtain ⟨_, t, begun, fine⟩ := Act.ok_of_ends fine
  simp only [Bool.and_eq_true, bne_iff_ne, beq_iff_eq] at fine
  obtain ⟨⟨⟨⟨recording, track⟩, untaped⟩, other⟩, fine⟩ := fine
  obtain ⟨_, u, looked, fine⟩ := Act.ok_of_ends fine
  simp only [Bool.and_eq_true, beq_iff_eq] at fine
  obtain ⟨⟨⟨⟨rfl, going⟩, angles⟩, message⟩, fine⟩ := fine
  obtain ⟨_, v, stopped, fine⟩ := Act.ok_of_ends fine
  simp only [Bool.and_eq_true, beq_iff_eq] at fine
  obtain ⟨idle, printed⟩ := fine
  obtain ⟨first, doing, recorded⟩ := (recording_complete (fresh_demoStart.ready.expecting [1, 1])).2 _ t
    (.begun rfl begun recording)
  obtain ⟨file, now, _, _, _, ends⟩ := recorded [(.asked reliable, u)] u (.single (.asked looked)) (by simp) going
  have place : first.place = ["base".toList, "r.dem".toList] := by
    cases of_spec (beginRecording_spec _ _ _) begun with
    | refused _ now => exact nomatch recording.symm.trans (congrArg Core.recording now)
    | opened made now =>
      cases doing.symm.trans (congrArg Core.demo now)
      exact Writer.place_create made
  have apart : Apart (core t) first.place := by
    rw [place]
    refine ⟨other, fun tape taping => ?_⟩
    rw [show t.world.tapeFile = some tape from taping] at untaped
    cases untaped
  have content := (ends .other v (.ended (.of_aside (.stopRecording stopped) (Beside.stopRecording.of_ok stopped)) idle)
    (by rw [Client.recording, idle]; rfl)).2 apart (not_reported_of_completed printed)
      (by rw [Client.playing, idle]; exact fun both => Bool.false_ne_true both.1)
  rw [heard_noted rfl, track, angles, message] at content
  exact ⟨t, u, v, file, begun, looked, stopped, now, by simpa using content⟩

end GameHost.Client
