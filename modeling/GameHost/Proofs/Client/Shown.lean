import GameHost.Proofs.Client.Complete
import GameHost.Proofs.Client.Obeyed
import GameHost.Proofs.Demo.Decoded

/-!
Playing a demo whose file holds any bytes. The messages of its whole frames are shown one after another. After the last
of them playback ends, or fails if the bytes go on with a length that no frame can have.
-/
namespace GameHost.Client
open GameHost.Message (Buffer Order)

/-- The messages of a demo that looks returned, as frames with the newest of the angles. -/
def shown (seen : List Look) : List Demo.Frame :=
  (seen.filter fun look => look.1 == 1).map fun look => ⟨look.2.world.view.frameAngles.1, look.2.world.incoming.written⟩

/-- The angles of the last two frames, the newest first. -/
def lastTwo (frames : List Demo.Frame) : Angles × Angles :=
  match frames.reverse with
  | newest :: before :: _ => (newest.angles, before.angles)
  | [newest] => (newest.angles, .zero)
  | [] => (.zero, .zero)

theorem lastTwo_concat (frames : List Demo.Frame) (frame : Demo.Frame) :
    lastTwo (frames ++ [frame]) = (frame.angles, (lastTwo frames).1) := by
  unfold lastTwo
  rw [List.reverse_append, List.reverse_singleton, List.singleton_append]
  cases frames.reverse with
  | nil => rfl
  | cons before _ => cases ‹List Demo.Frame› <;> rfl

variable {s m t : Session} {file : Reader}

/-- A look for a message while a demo is played. -/
inductive Turned (s : Session) (file : Reader) : EStateM.Result Fault Session Int32 → Prop where
  | waits {t : Session} (due : (frameDue s.world).1 = false) (same : still t = still s) : Turned s file (.ok 0 t)
  | shows {t : Session} {frame : Demo.Frame} {left : Reader} (due : (frameDue s.world).1 = true)
      (split : Demo.split? (file.rest s.world.disk) = some (frame, left.rest s.world.disk)) (place : left.place = file.place)
      (now : core t = { core s with demo := .playing left }) (capacity : t.world.incoming.capacity = s.world.incoming.capacity)
      (written : t.world.incoming.written = frame.data)
      (angles : t.world.view.frameAngles = (frame.angles, s.world.view.frameAngles.1)) : Turned s file (.ok 1 t)
  | ends {t : Session} (due : (frameDue s.world).1 = true) (tail : Demo.split? (file.rest s.world.disk) = none)
      (right : Demo.wrongLength? (file.rest s.world.disk) = none) (idle : t.world.demo = .idle)
      (off : t.world.connected = false) : Turned s file (.ok 0 t)
  | fails {t : Session} {length : Int32} (due : (frameDue s.world).1 = true)
      (wrong : Demo.wrongLength? (file.rest s.world.disk) = some length) : Turned s file (.error (Demo.lengthFault length) t)

theorem nextMessage_turned (doing : s.world.demo = .playing file) (room : Demo.messageLimit ≤ s.world.incoming.capacity) :
    Turned s file (nextMessage s) := by
  have playing : s.world.playing = true := congrArg Demo.Activity.isPlaying doing
  have active := frameDue_active s.world
  unfold nextMessage
  rw [ask_at, if_pos playing]
  unfold demoMessage
  rw [ask_at]
  cases look : frameDue s.world with
  | mk due timing =>
  rw [look] at active
  have known : (frameDue s.world).1 = due := congrArg Prod.fst look
  dsimp only
  rw [change_at]
  cases due with
  | false => exact .waits known (congrArg (fun core => (core, (still s).2)) (core_timing active))
  | true =>
  rw [doing]
  dsimp only
  cases split : Demo.split? (file.rest s.world.disk) with
  | some found =>
    obtain ⟨frame, after⟩ := found
    obtain ⟨left, read, place, rfl⟩ := Demo.readFrame_of_split split
    have short : frame.data.length ≤ s.world.incoming.capacity := Nat.le_trans (Demo.split?_eq_some.1 split).2 room
    have filled : Buffer.fill frame.data s.world.incoming = .ok () (s.world.incoming.holding frame.data) :=
      Buffer.fill_ok.2 ⟨short, rfl⟩
    have capacity := (Buffer.capacity_fill frame.data).of_ok filled
    let turned : Session := { s with world := { s.world with timing, demo := .playing left } }
    have take : (within Client.incoming (fun incoming c => { c with incoming }) (Buffer.fill frame.data) : Act Session Unit)
        turned = .ok () { turned with world := { turned.world with incoming := s.world.incoming.holding frame.data } } :=
      Act.within_of_ok filled
    rw [read]
    dsimp only
    rw [change_at, Act.bind_of_ok take]
    refine .shows known split place ?_ capacity (Buffer.written_holding _ _) rfl
    exact congrArg (fun timed => { core s with demo := .playing left, timed }) active
  | none =>
  cases wrong : Demo.wrongLength? (file.rest s.world.disk) with
  | some length =>
    obtain ⟨left, read⟩ := Demo.readFrame_of_wrong wrong
    rw [read]
    exact .fails known wrong
  | none =>
    obtain ⟨left, read⟩ := Demo.readFrame_of_tail split wrong
    rw [read]
    dsimp only
    rw [change_at]
    obtain ⟨t, stopped, now⟩ := stopPlayback_spec { s with world := { s.world with timing, demo := .playing left } }
    rw [Act.bind_of_ok stopped]
    exact .ends known split wrong (congrArg Core.demo now) (congrArg Core.connected now)

/-- Nothing is played any more, and the client is not connected. -/
structure Over (s : Session) : Prop where
  idle : s.world.demo = .idle
  off : s.world.connected = false

theorem disconnect_playing (playing : s.world.playing = true) : ∃ t, disconnect s = .ok () t ∧ Over t := by
  obtain ⟨t, ran, dropped⟩ := disconnect_spec s
  cases dropped with
  | played _ now => exact ⟨t, ran, congrArg Core.demo now, congrArg Core.connected now⟩
  | recorded _ recording _ _ _ => exact nomatch (Core.recording_of_playing (c := core s) playing).symm.trans recording
  | left quiet _ _ => exact nomatch quiet.symm.trans playing

theorem gameError_playing (message : Text) (playing : s.world.playing = true) : ∃ t, gameError message s = .ok () t ∧ Over t :=
  disconnect_playing (s := { s with
    shell := s.shell.print ("Host_Error: " ++ message ++ "\n"), world := { s.world with nextDemo := -1 } }) playing

theorem endGame_playing (playing : s.world.playing = true) : ∃ t, endGame s = .ok () t ∧ Over t := by
  obtain ⟨_, t, ran, _, _⟩ := endGame_left s
  refine ⟨t, ran, ?_⟩
  obtain ⟨_, m, left, queued⟩ := Act.bind_ok.1 ran
  obtain ⟨n, left', finished⟩ := disconnect_playing playing
  cases left.symm.trans left'
  have same : core t = core m := core_of_still (Plain.queueNextDemo.of_ok queued)
  exact ⟨(congrArg Core.demo same).trans finished.idle, (congrArg Core.connected same).trans finished.off⟩

/-- Orders that leave a demo playing, done one after another. -/
inductive Heeds : Session → Session → Prop where
  | here {s : Session} : Heeds s s
  | time {s t : Session} (seconds : Single) (onward : Heeds { s with world := heed seconds s.world } t) : Heeds s t
  | print {s t : Session} (text : Text) (onward : Heeds { s with shell := s.shell.print text } t) : Heeds s t
  | run {s t : Session} (text : Text) (onward : Heeds { s with shell := s.shell.addText text } t) : Heeds s t
  | signon {s t : Session} {number : Int} (inOrder : signonInOrder number s.world.signon = true)
      (onward : Heeds { s with world := { s.world with signon := number } } t) : Heeds s t

theorem Heeds.still (heeds : Heeds s t) : Client.still t = Client.still s := by
  induction heeds with
  | here => rfl
  | time _ _ ih => exact ih
  | print _ _ ih => exact ih
  | run text _ ih => exact ih.trans (Plain.onShell (Shell.commands_addText text) _)
  | signon _ _ ih => exact ih

/-- Orders that are obeyed while a demo plays leave it playing, or end the game. -/
theorem obey_playing (orders : List Order) (playing : s.world.playing = true) :
    ∃ t, obey orders s = .ok () t ∧ (Heeds s t ∨ Over t) := by
  induction orders generalizing s with
  | nil => exact ⟨s, rfl, .inl .here⟩
  | cons order rest ih =>
    cases order with
    | nothing => exact ih playing
    | time seconds =>
      obtain ⟨t, ran, outcome⟩ := ih (s := { s with world := heed seconds s.world }) playing
      exact ⟨t, ran, outcome.imp_left (.time seconds)⟩
    | print text =>
      obtain ⟨t, ran, outcome⟩ := ih (s := { s with shell := s.shell.print text }) playing
      exact ⟨t, ran, outcome.imp_left (.print text)⟩
    | run text =>
      obtain ⟨t, ran, outcome⟩ := ih (s := { s with shell := s.shell.addText text }) playing
      exact ⟨t, ran, outcome.imp_left (.run text)⟩
    | signon number =>
      rw [obey, ask_at]
      split
      · rename_i inOrder
        obtain ⟨t, ran, outcome⟩ := ih (s := { s with world := { s.world with signon := number } }) playing
        exact ⟨t, ran, outcome.imp_left (.signon inOrder)⟩
      · obtain ⟨t, ran, finished⟩ := gameError_playing _ playing
        exact ⟨t, ran, .inr finished⟩
    | leave =>
      obtain ⟨t, ran, finished⟩ := endGame_playing playing
      exact ⟨t, ran, .inr finished⟩
    | illegible | broken =>
      obtain ⟨t, ran, finished⟩ := gameError_playing _ playing
      exact ⟨t, ran, .inr finished⟩

/-- What a reading of messages comes to: a demo is still played; or its whole frames are all shown, and it is over or the
bytes go on with a length that no frame can have; or a message that was shown has ended the game. -/
inductive Reading (later : List Demo.Frame) (tail : Bytes) : List Demo.Frame → EStateM.Result Fault Session Unit → Prop where
  | stands {seen : List Demo.Frame} {t : Session} (part : seen <+: later) (playing : t.world.playing = true) :
      Reading later tail seen (.ok () t)
  | ended {t : Session} (right : Demo.wrongLength? tail = none) (finished : Over t) : Reading later tail later (.ok () t)
  | left {seen : List Demo.Frame} {t : Session} (part : seen <+: later) (some : seen ≠ []) (finished : Over t) :
      Reading later tail seen (.ok () t)
  | failed {t : Session} {length : Int32} (wrong : Demo.wrongLength? tail = some length) :
      Reading later tail later (.error (Demo.lengthFault length) t)

theorem Reading.cons {later seen : List Demo.Frame} {tail : Bytes} {outcome : EStateM.Result Fault Session Unit}
    (reading : Reading later tail seen outcome) (frame : Demo.Frame) :
    Reading (frame :: later) tail (frame :: seen) outcome := by
  cases reading with
  | stands part playing => exact .stands (List.cons_prefix_cons.2 ⟨rfl, part⟩) playing
  | ended right finished => exact .ended right finished
  | left part _ finished => exact .left (List.cons_prefix_cons.2 ⟨rfl, part⟩) (by simp) finished
  | failed wrong => exact .failed wrong

theorem shown_append (seen more : List Look) : shown (seen ++ more) = shown seen ++ shown more := by
  simp [shown]

theorem shown_cons (t : Session) (seen : List Look) :
    shown ((1, t) :: seen) = ⟨t.world.view.frameAngles.1, t.world.incoming.written⟩ :: shown seen := rfl

/-- A reading that is allowed as many looks as there are bytes left comes to an end. -/
theorem readWithin_reading {fuel : Nat} {later : List Demo.Frame} {tail : Bytes} (doing : s.world.demo = .playing file)
    (decoded : Demo.decode (file.rest s.world.disk) = (later, tail)) (room : Demo.messageLimit ≤ s.world.incoming.capacity)
    (enough : (file.rest s.world.disk).length < fuel) :
    Reading later tail (shown (looksWithin fuel s)) (readWithin fuel s) := by
  induction fuel generalizing s file later with
  | zero => cases enough
  | succ fuel ih =>
    have turned := nextMessage_turned doing room
    unfold readWithin looksWithin
    cases ran : nextMessage s with
    | error fault t =>
      rw [ran] at turned
      rw [Act.bind_of_error ran]
      cases turned with
      | fails _ wrong =>
        rw [Demo.decode_of_none (Demo.split?_of_wrong wrong)] at decoded
        cases decoded
        exact .failed wrong
    | ok kind t =>
      rw [ran] at turned
      rw [Act.bind_of_ok ran, onward]
      cases turned with
      | waits _ same =>
        have playing : t.world.playing = true :=
          congrArg Demo.Activity.isPlaying ((congrArg Core.demo (core_of_still same)).trans doing)
        exact .stands (List.nil_prefix ..) playing
      | ends _ tail right idle off =>
        rw [Demo.decode_of_none tail] at decoded
        cases decoded
        exact .ended right ⟨idle, off⟩
      | @shows _ frame left _ split place now capacity written angles =>
        rw [Demo.decode_of_split split] at decoded
        cases decoded
        have playing : t.world.playing = true := congrArg Core.playing now
        have disk : t.world.disk = s.world.disk := congrArg Core.disk now
        have newest : (⟨t.world.view.frameAngles.1, t.world.incoming.written⟩ : Demo.Frame) = frame := by
          rw [angles, written]
        obtain ⟨n, obeyed, outcome⟩ := obey_playing (Order.ofBytes t.world.incoming.written) playing
        have obeyed : obeyMessage t = .ok () n := obeyed
        change Reading _ _ (shown ((1, t) :: onward (fun _ u => if u.world.connected then looksWithin fuel u else [])
          (obeyMessage t))) ((obeyMessage >>= fun _ => ask >>= fun c => if c.connected then readWithin fuel else pure ()) t)
        rw [shown_cons, newest, obeyed, onward, Act.bind_of_ok obeyed, ask_at]
        rcases outcome with heeds | finished
        · have same := heeds.still
          have doing : n.world.demo = .playing left :=
            (congrArg Core.demo (core_of_still same)).trans (congrArg Core.demo now)
          have there : n.world.disk = s.world.disk := (congrArg Core.disk (core_of_still same)).trans disk
          split
          · have size : n.world.incoming.capacity = t.world.incoming.capacity := congrArg (fun part => part.2.1) same
            have fewer := Demo.length_of_split split
            have few : (left.rest n.world.disk).length < fuel := by
              rw [there]
              omega
            exact .cons (ih doing (by rw [there]) (by rw [size, capacity]; exact room) few) frame
          · exact .cons (.stands (List.nil_prefix ..) (congrArg Demo.Activity.isPlaying doing)) frame
        · rw [if_neg (by rw [finished.off]; decide), if_neg (by rw [finished.off]; decide)]
          exact .left (by simp [shown]) (by simp) finished

/-- What a look for a message comes to, by the frames that are still to be shown and the tail: none is due; the next one
is shown; after the last one it is over; or the bytes go on with a length that no frame can have. -/
inductive Outlook (s : Session) : List Demo.Frame → Bytes → EStateM.Result Fault Session Int32 → Prop where
  | waits {later : List Demo.Frame} {tail : Bytes} {t : Session} (due : (frameDue s.world).1 = false)
      (same : still t = still s) : Outlook s later tail (.ok 0 t)
  | shows {frame : Demo.Frame} {later : List Demo.Frame} {tail : Bytes} {t : Session} (due : (frameDue s.world).1 = true)
      (playing : t.world.playing = true) (written : t.world.incoming.written = frame.data)
      (angles : t.world.view.frameAngles = (frame.angles, s.world.view.frameAngles.1)) :
      Outlook s (frame :: later) tail (.ok 1 t)
  | ends {tail : Bytes} {t : Session} (due : (frameDue s.world).1 = true) (right : Demo.wrongLength? tail = none)
      (finished : Over t) (read : ∀ fuel, readWithin (fuel + 1) s = .ok () t) : Outlook s [] tail (.ok 0 t)
  | fails {tail : Bytes} {t : Session} {length : Int32} (due : (frameDue s.world).1 = true)
      (wrong : Demo.wrongLength? tail = some length)
      (read : ∀ fuel, readWithin (fuel + 1) s = .error (Demo.lengthFault length) t) :
      Outlook s [] tail (.error (Demo.lengthFault length) t)

theorem nextMessage_outlook {later : List Demo.Frame} {tail : Bytes} (doing : s.world.demo = .playing file)
    (decoded : Demo.decode (file.rest s.world.disk) = (later, tail)) (room : Demo.messageLimit ≤ s.world.incoming.capacity) :
    Outlook s later tail (nextMessage s) := by
  have turned := nextMessage_turned doing room
  cases ran : nextMessage s with
  | ok kind t =>
    rw [ran] at turned
    cases turned with
    | waits due same => exact .waits due same
    | ends due tail right idle off =>
      rw [Demo.decode_of_none tail] at decoded
      cases decoded
      refine .ends due right ⟨idle, off⟩ fun fuel => ?_
      rw [readWithin, Act.bind_of_ok ran]
      rfl
    | shows due split _ now _ written angles =>
      rw [Demo.decode_of_split split] at decoded
      cases decoded
      exact .shows due (congrArg Core.playing now) written angles
  | error fault t =>
    rw [ran] at turned
    cases turned with
    | fails due wrong =>
      rw [Demo.decode_of_none (Demo.split?_of_wrong wrong)] at decoded
      cases decoded
      refine .fails due wrong fun fuel => ?_
      rw [readWithin, Act.bind_of_error ran]

/-- A demo that is played has gone on by these frames. -/
structure Advanced (s : Session) (file : Reader) (frames : List Demo.Frame) (t : Session) (left : Reader) : Prop where
  doing : t.world.demo = .playing left
  place : left.place = file.place
  decoded : Demo.decode (file.rest s.world.disk) =
    (frames ++ (Demo.decode (left.rest t.world.disk)).1, (Demo.decode (left.rest t.world.disk)).2)
  angles : ∀ before, s.world.view.frameAngles = lastTwo before → t.world.view.frameAngles = lastTwo (before ++ frames)

namespace Advanced

variable {mid left : Reader} {frames more : List Demo.Frame}

theorem still (doing : t.world.demo = .playing file) (rest : file.rest t.world.disk = file.rest s.world.disk)
    (angles : t.world.view.frameAngles = s.world.view.frameAngles) : Advanced s file [] t file := by
  refine ⟨doing, rfl, by rw [rest]; rfl, fun before now => ?_⟩
  rw [List.append_nil, angles, now]

theorem trans (first : Advanced s file frames m mid) (second : Advanced m mid more t left) :
    Advanced s file (frames ++ more) t left := by
  refine ⟨second.doing, second.place.trans first.place, ?_, fun before now => ?_⟩
  · rw [first.decoded, second.decoded, List.append_assoc]
  · rw [← List.append_assoc]
    exact second.angles _ (first.angles before now)

end Advanced

theorem rest_of_contents (same : t.world.disk.contents file.place = s.world.disk.contents file.place) :
    file.rest t.world.disk = file.rest s.world.disk := by
  rw [Reader.rest, same, Reader.rest]

/-- A stride with which a demo is still played goes on by the frames that it shows. -/
theorem Stride.advanced {note : Note} (stride : Stride note s t) (other : note ≠ .played)
    (doing : s.world.demo = .playing file) (room : Demo.messageLimit ≤ s.world.incoming.capacity)
    (same : t.world.disk.contents file.place = s.world.disk.contents file.place) (playing : t.world.playing = true) :
    ∃ left, Advanced s file (shown (looks [(note, t)])) t left := by
  cases stride with
  | aside deed demo pictures => exact ⟨file, .still (demo.trans doing) (rest_of_contents same) (pictures playing)⟩
  | ended _ idle => exact nomatch playing.symm.trans (congrArg Demo.Activity.isPlaying idle)
  | begun _ _ recording => exact nomatch playing.symm.trans (Core.playing_of_recording (c := core t) recording)
  | played => exact absurd rfl other
  | asked ran =>
    have turned := nextMessage_turned doing room
    rw [ran] at turned
    cases turned with
    | waits _ kept =>
      have demo : t.world.demo = .playing file := (congrArg Core.demo (core_of_still kept)).trans doing
      exact ⟨file, .still demo (rest_of_contents same) (congrArg (fun part => part.2.2) kept)⟩
    | ends _ _ _ idle _ => exact nomatch playing.symm.trans (congrArg Demo.Activity.isPlaying idle)
    | @shows _ frame left _ split place now _ written angles =>
      have disk : t.world.disk = s.world.disk := congrArg Core.disk now
      have newest : shown (looks [(.asked 1, t)]) = [frame] := by
        rw [← show (⟨t.world.view.frameAngles.1, t.world.incoming.written⟩ : Demo.Frame) = frame by rw [angles, written]]
        rfl
      refine ⟨left, congrArg Core.demo now, place, ?_, fun before now => ?_⟩
      · rw [newest, disk, Demo.decode_of_split split, List.singleton_append]
      · rw [newest, lastTwo_concat, angles, now]

theorem Strides.advanced {steps : List (Note × Session)} (strides : Strides s steps t) (ready : Ready s)
    (other : ∀ step ∈ steps, step.1 ≠ .played) (doing : s.world.demo = .playing file)
    (room : Demo.messageLimit ≤ s.world.incoming.capacity)
    (same : ∀ step ∈ steps, step.2.world.disk.contents file.place = s.world.disk.contents file.place)
    (playing : t.world.playing = true) : ∃ left, Advanced s file (shown (looks steps)) t left := by
  induction strides generalizing file with
  | here => exact ⟨file, .still doing rfl rfl⟩
  | @step note s m t later stride onward ih =>
    obtain ⟨first, other⟩ := List.forall_mem_cons.1 other
    obtain ⟨kept, same⟩ := List.forall_mem_cons.1 same
    -- what has ended is not gone on with, as no other demo is begun
    have going : m.world.playing = true := by
      rcases onward.origin.2 playing with before | ⟨_, member, played⟩
      · exact before
      · exact absurd played (other _ member)
    obtain ⟨mid, advanced⟩ := stride.advanced first doing room kept going
    have deeds := stride.deeds ready
    have same : ∀ step ∈ later, step.2.world.disk.contents mid.place = m.world.disk.contents mid.place := by
      rw [advanced.place]
      exact fun step member => (same step member).trans kept.symm
    obtain ⟨left, more⟩ := ih (deeds.moves.ready ready) other advanced.doing (by rw [deeds.capacity]; exact room) same playing
    rw [← List.singleton_append, looks_append, shown_append]
    exact ⟨left, advanced.trans more⟩

theorem playDemo_opened {name : Text} (ran : playDemo name s = .ok true t) : ∃ m place, Dropped s m ∧
    t.world.demo = .playing (Demo.opened m.world.disk place) ∧ t.world.disk = m.world.demo.close m.world.disk ∧
    t.world.view.frameAngles = (.zero, .zero) := by
  obtain ⟨m, left, dropped⟩ := disconnect_spec s
  unfold playDemo at ran
  rw [Act.bind_of_ok left, print_at, ask_at] at ran
  dsimp only at ran
  cases found : (m.world.folders.find name m.world.disk).bind fun path => (m.world.disk.locate path).toOption with
  | none =>
    rw [found] at ran
    cases ran
  | some place =>
    rw [found] at ran
    dsimp only at ran
    unfold Demo.opened
    cases opened : (Reader.atStart place).line m.world.disk with
    | mk line file =>
      rw [opened] at ran
      cases ran
      exact ⟨m, place, dropped, by rw [opened]; rfl, rfl, rfl⟩

theorem contents_close {other : Writer} (ne : other.place ≠ file.place) (disk : Disk) :
    (other.close disk).contents file.place = disk.contents file.place := by
  unfold Disk.contents
  rw [(Writer.close_same other disk ne.symm).entry]

/-- A recording that is still there when a connection has been let go was made without one. -/
theorem Dropped.recording (dropped : Dropped s t) {other : Writer} (doing : t.world.demo = .recording other) :
    s.world.demo = .recording other ∧ s.world.connected = false := by
  have recording : (core t).recording = true := congrArg Demo.Activity.isRecording doing
  cases dropped with
  | played _ now => exact nomatch recording.symm.trans (congrArg Core.recording now)
  | recorded _ _ stopped now _ =>
    rw [now] at recording
    exact nomatch recording.symm.trans stopped.silent
  | left _ apart now =>
    have before : s.world.demo = .recording other := (congrArg Core.demo now).symm.trans doing
    refine ⟨before, ?_⟩
    by_contra connected
    exact nomatch (apart (by simpa using connected)).symm.trans (congrArg Demo.Activity.isRecording before)

/-- Every run goes by strides, and its looks for a message are among them. From where a demo is begun to be played, as
long as its file stays as it is and it is played on, the looks have shown the first of the whole frames that its bytes
are decoded to, in order, and the angles are those of the last two. The next look shows the next frame, if one is due;
after the last, playing is over, or fails if the tail begins with a length that no frame can have. So much for a reading
of messages, too, which always comes to an end. The bytes are those after the first line of the file, unless it is being
recorded just then. -/
theorem playback_decodes {s : Session} (ready : Ready s) (room : Demo.messageLimit ≤ s.world.incoming.capacity) :
    (∀ inputs, Told s (looksAlong inputs s) (Input.states inputs s)) ∧
    ∀ before m t, Strides s before m → Stride .played m t → ∃ file, t.world.demo = .playing file ∧
      ((∀ other, m.world.demo = .recording other → m.world.connected = false → other.place ≠ file.place) →
        file.rest t.world.disk = Demo.body (t.world.disk.contents file.place).bytes) ∧
      ∀ steps u, Strides t steps u → (∀ step ∈ steps, step.1 ≠ .played) →
        (∀ step ∈ steps, step.2.world.disk.contents file.place = t.world.disk.contents file.place) →
          u.world.playing = true → ∃ later tail,
            Demo.decode (file.rest t.world.disk) = (shown (looks steps) ++ later, tail) ∧
            u.world.view.frameAngles = lastTwo (shown (looks steps)) ∧ Outlook u later tail (nextMessage u) ∧
            Reading later tail (shown (looksWithin (backlog u.world + 1) u)) (readServer u) := by
  refine ⟨fun inputs => Told.inputs inputs ready, fun before m t strides played => ?_⟩
  have deeds := (strides.deeds ready).trans (played.deeds ((strides.deeds ready).moves.ready ready))
  have there : Ready t := deeds.moves.ready ready
  have room : Demo.messageLimit ≤ t.world.incoming.capacity := deeds.capacity ▸ room
  cases played with
  | played ran =>
  obtain ⟨n, place, dropped, doing, disk, angles⟩ := playDemo_opened ran
  refine ⟨_, doing, fun apart => ?_, fun steps u onward other same playing => ?_⟩
  · have same : t.world.disk.contents (Demo.opened n.world.disk place).place =
        n.world.disk.contents (Demo.opened n.world.disk place).place := by
      rw [disk]
      cases now : n.world.demo with
      | idle => rfl
      | playing _ => rfl
      | recording other =>
        obtain ⟨before, offline⟩ := dropped.recording now
        exact contents_close (apart other before offline) n.world.disk
    obtain ⟨whole, rest⟩ := Demo.opened_eq n.world.disk place
    rw [rest_of_contents same, rest, same, whole]
  · obtain ⟨left, advanced⟩ := onward.advanced there other doing room same playing
    have room : Demo.messageLimit ≤ u.world.incoming.capacity := (onward.deeds there).capacity ▸ room
    have enough : (left.rest u.world.disk).length < backlog u.world + 1 := by
      rw [backlog, advanced.doing, Reader.rest, Intake.length_rest]
      exact Nat.lt_succ_of_le (Nat.le_add_left ..)
    exact ⟨_, _, advanced.decoded, advanced.angles [] angles, nextMessage_outlook advanced.doing rfl room,
      readWithin_reading advanced.doing rfl room enough⟩

/-- A session with a demo of one whole frame, the next one being cut off within its message. -/
def cutDemoStart : Session :=
  Client.newSession (SearchPath.ofBase "/")
    ⟨[(["base".toList], .folder), (["base".toList, "a.dem".toList],
      .file (Packed.ofBytes (10 :: Demo.Frame.encode ⟨.zero, [1]⟩ ++ (Demo.Frame.encode ⟨.zero, [9, 9, 9]⟩).take 18)))], []⟩
    Console.captured

/-- The whole frame is shown, and then playing is over. -/
theorem cut_demo_shown : ∃ t u v file tail, playDemo "a.dem" cutDemoStart = .ok true t ∧ t.world.demo = .playing file ∧
    nextMessage t = .ok 1 u ∧ readServer u = .ok () v ∧ Over v ∧
    Demo.decode (Demo.body (t.world.disk.contents file.place).bytes) = ([⟨.zero, [1]⟩], tail) := by
  have fine : Act.ends (fun opened t => opened && Act.ends (fun kind u => kind == 1 && u.world.playing &&
      u.world.disk == t.world.disk && (frameDue u.world).1 && shown [(1, u)] == [⟨.zero, [1]⟩] &&
      Act.ends (fun kind _ => kind == 0) (nextMessage u)) (nextMessage t)) (playDemo "a.dem" cutDemoStart) = true := by
    decide +kernel
  obtain ⟨_, t, played, fine⟩ := Act.ok_of_ends fine
  simp only [Bool.and_eq_true] at fine
  obtain ⟨rfl, fine⟩ := fine
  obtain ⟨_, u, looked, fine⟩ := Act.ok_of_ends fine
  simp only [Bool.and_eq_true, beq_iff_eq] at fine
  obtain ⟨⟨⟨⟨⟨rfl, playing⟩, disk⟩, due⟩, seen⟩, fine⟩ := fine
  obtain ⟨_, v, none, fine⟩ := Act.ok_of_ends fine
  cases eq_of_beq fine
  have ready : Ready cutDemoStart := ready_newSession _ _ _
  obtain ⟨file, doing, bytes, shows⟩ := (playback_decodes ready (by decide)).2 [] cutDemoStart t .here (.played played)
  obtain ⟨later, tail, decoded, _, outlook, _⟩ := shows [(.asked 1, u)] u (.single (.asked looked)) (by simp)
    (by simp [disk]) playing
  rw [none] at outlook
  cases outlook with
  | waits waiting _ => exact nomatch due.symm.trans waiting
  | ends _ _ finished read =>
    have content := bytes fun other recording => nomatch recording
    refine ⟨t, u, v, file, tail, played, doing, looked, read _, finished, ?_⟩
    rw [← content, decoded, List.append_nil]
    exact congrArg (fun frames => (frames, tail)) seen

end GameHost.Client
