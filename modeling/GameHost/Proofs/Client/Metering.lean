import GameHost.Proofs.Client.Bounds
import GameHost.Proofs.Client.Dispatch
import GameHost.Proofs.Client.Shown

/-!
How a timed demo goes: one of its frames is read in every frame of the host once the client is signed on, and its report
counts the frames of the host from the one after that in which it was begun.
-/
namespace GameHost.Client
open GameHost.Message (Order)
open GameHost.Network (Driver)
open Logged

/-- A demo plays that is timed, and signing on is complete. -/
def Timed (s : Session) : Prop :=
  s.world.playing = true ∧ s.world.timing.active = true ∧ s.world.signon = signons

instance (s : Session) : Decidable (Timed s) := by
  unfold Timed
  infer_instance

/-- The frames of a demo that looks have read. -/
def framesRead (seen : List Look) : List Look := seen.filter fun look => look.1 == 1 && look.2.world.playing

/-- Those read from a timed demo after signing on. A look at it changes nothing of that. -/
def timedReads (seen : List Look) : List Look := (framesRead seen).filter fun look => decide (Timed look.2)

variable {s m t : Session}

/-- What a look into a demo comes to, if it ends well. -/
inductive Glance (s t : Session) : Int32 → Prop where
  | waits (due : (frameDue s.world).1 = false) (same : t = { s with world.timing := (frameDue s.world).2 }) : Glance s t 0
  | reads (due : (frameDue s.world).1 = true)
      (now : stopwatch t = { stopwatch s with timing := (frameDue s.world).2 })
      (signon : t.world.signon = s.world.signon) (connected : t.world.connected = s.world.connected) : Glance s t 1
  | ends (due : (frameDue s.world).1 = true) (finished : Over t) : Glance s t 0

theorem nextMessage_glance {kind : Int32} (playing : s.world.playing = true) (ran : nextMessage s = .ok kind t) :
    Glance s t kind := by
  unfold nextMessage at ran
  rw [ask_at, if_pos playing] at ran
  unfold demoMessage at ran
  rw [ask_at] at ran
  cases look : frameDue s.world with
  | mk due timing =>
  have known : (frameDue s.world).1 = due := congrArg Prod.fst look
  rw [look] at ran
  dsimp only at ran
  rw [change_at] at ran
  cases doing : s.world.demo with
  | idle | recording _ =>
    rw [Client.playing, doing] at playing
    cases playing
  | playing file =>
  cases due with
  | false =>
    cases ran
    exact .waits known (by rw [look])
  | true =>
  rw [doing] at ran
  dsimp only at ran
  cases read : Demo.readFrame file s.world.disk with
  | mk frame left =>
  rw [read] at ran
  dsimp only at ran
  rw [change_at] at ran
  cases frame with
  | error fault => cases ran
  | ok frame =>
    cases frame with
    | none =>
      obtain ⟨_, u, stopped, ran⟩ := Act.bind_ok.1 ran
      cases ran
      have now := of_spec (stopPlayback_spec _) stopped
      exact .ends known ⟨congrArg Core.demo now, congrArg Core.connected now⟩
    | some frame =>
      obtain ⟨_, u, filled, ran⟩ := Act.bind_ok.1 ran
      obtain ⟨incoming, _, rfl⟩ := Act.within_ok.1 filled
      cases ran
      refine .reads known ?_ rfl rfl
      rw [look]
      exact stopwatch_of_playing (s := { s with world := { s.world with timing } }) playing left

/-- What messages do to a demo that plays on. -/
structure Kept (s t : Session) : Prop where
  stopwatch : stopwatch t = stopwatch s
  connected : t.world.connected = s.world.connected
  signed : s.world.signon = signons → t.world.signon = signons

theorem Kept.timed (kept : Kept s t) (timed : Timed s) : Timed t :=
  ⟨(congrArg Stopwatch.playing kept.stopwatch).trans timed.1,
    (congrArg (fun w => w.timing.active) kept.stopwatch).trans timed.2.1, kept.signed timed.2.2⟩

/-- Once signed on, the client is not signed on any further. -/
theorem Heeds.kept (heeds : Heeds s t) : Kept s t := by
  induction heeds with
  | here => exact ⟨rfl, rfl, id⟩
  | time _ _ ih | print _ _ ih | run _ _ ih => exact ⟨ih.stopwatch, ih.connected, ih.signed⟩
  | signon inOrder _ ih =>
    refine ⟨ih.stopwatch, ih.connected, fun signed => ?_⟩
    simp only [signonInOrder, Bool.and_eq_true, decide_eq_true_eq] at inOrder
    omega

theorem obeyMessage_kept (playing : s.world.playing = true) : ∃ t, obeyMessage s = .ok () t ∧ (Kept s t ∨ Over t) := by
  obtain ⟨t, ran, outcome⟩ := obey_playing (Order.ofBytes s.world.incoming.written) playing
  exact ⟨t, ran, outcome.imp_left Heeds.kept⟩

theorem looksWithin_of_error {fault : Fault} (ran : nextMessage s = .error fault t) (fuel : Nat) :
    looksWithin (fuel + 1) s = [] := by
  rw [looksWithin, ran]
  rfl

theorem looksWithin_of_ok {kind : Int32} (ran : nextMessage s = .ok kind t) (fuel : Nat) :
    looksWithin (fuel + 1) s = (kind, t) :: if kind == -1 then [] else if kind != 0 then
      onward (fun _ u => if u.world.connected then looksWithin fuel u else []) (obeyMessage t) else [] := by
  rw [looksWithin, ran]
  rfl

theorem looksWithin_of_none (ran : nextMessage s = .ok 0 t) (fuel : Nat) : looksWithin (fuel + 1) s = [(0, t)] :=
  looksWithin_of_ok ran fuel

theorem looksWithin_of_one {u : Session} (ran : nextMessage s = .ok 1 t) (obeyed : obeyMessage t = .ok () u) (fuel : Nat) :
    looksWithin (fuel + 1) s = (1, t) :: if u.world.connected then looksWithin fuel u else [] := by
  rw [looksWithin_of_ok ran, obeyed]
  rfl

theorem Over.quiet (finished : Over t) : t.world.playing = false := congrArg Demo.Activity.isPlaying finished.idle

/-- A demo whose frame of this frame is read already is not read on. -/
theorem framesRead_of_spent (timed : Timed s) (spent : s.world.frames = s.world.timing.lastFrame) (fuel : Nat) :
    framesRead (looksWithin fuel s) = [] := by
  have due := frameDue_of_timed timed.2.1 timed.2.2
  rw [if_pos spent] at due
  cases fuel with
  | zero => rfl
  | succ fuel =>
    cases ran : nextMessage s with
    | error fault t => rw [looksWithin_of_error ran]; rfl
    | ok kind t =>
      cases nextMessage_glance timed.1 ran with
      | waits _ _ => rw [looksWithin_of_none ran]; rfl
      | reads ready _ _ _ => exact nomatch ready.symm.trans (congrArg Prod.fst due)
      | ends ready _ => exact nomatch ready.symm.trans (congrArg Prod.fst due)

theorem timed_read_iff (now : stopwatch t = { stopwatch s with timing := (frameDue s.world).2 })
    (signon : t.world.signon = s.world.signon) : Timed t ↔ Timed s := by
  have playing : t.world.playing = s.world.playing := congrArg Stopwatch.playing now
  have timing : t.world.timing = (frameDue s.world).2 := congrArg Stopwatch.timing now
  rw [Timed, Timed, playing, timing, frameDue_active, signon]

theorem framesRead_of_timed (timed : Timed s) (fuel : Nat) : (framesRead (looksWithin fuel s)).length ≤ 1 := by
  cases fuel with
  | zero => exact Nat.zero_le _
  | succ fuel =>
    cases ran : nextMessage s with
    | error fault t =>
      rw [looksWithin_of_error ran]
      exact Nat.zero_le _
    | ok kind t =>
      cases nextMessage_glance timed.1 ran with
      | waits _ _ | ends _ _ =>
        rw [looksWithin_of_none ran]
        exact Nat.zero_le _
      | reads due now signon _ =>
        have latched := frameDue_of_timed timed.2.1 timed.2.2
        split at latched
        · exact nomatch due.symm.trans (congrArg Prod.fst latched)
        have still : Timed t := (timed_read_iff now signon).2 timed
        have spent : t.world.frames = t.world.timing.lastFrame := by
          rw [show t.world.timing = _ from congrArg Stopwatch.timing now]
          exact (congrArg Stopwatch.frames now).trans latched.2.symm
        obtain ⟨u, obeyed, outcome⟩ := obeyMessage_kept still.1
        have none : framesRead (if u.world.connected then looksWithin fuel u else []) = [] := by
          split
          · rename_i connected
            rcases outcome with kept | finished
            · refine framesRead_of_spent (kept.timed still) ?_ fuel
              rw [show u.world.timing = _ from congrArg Stopwatch.timing kept.stopwatch]
              exact (congrArg Stopwatch.frames kept.stopwatch).trans spent
            · exact nomatch connected.symm.trans finished.off
          · rfl
        rw [looksWithin_of_one ran obeyed, framesRead, List.filter_cons_of_pos (by simp [still.1]), ← framesRead, none]
        exact Nat.le_refl 1

theorem timedReads_cons (kind : Int32) (t : Session) (seen : List Look) :
    timedReads ((kind, t) :: seen) = if kind = 1 ∧ Timed t then (kind, t) :: timedReads seen else timedReads seen := by
  by_cases read : kind = 1 ∧ t.world.playing = true
  · by_cases timed : Timed t
    · rw [if_pos ⟨read.1, timed⟩]
      simp [timedReads, framesRead, read, timed]
    · rw [if_neg fun both => timed both.2]
      simp [timedReads, framesRead, read, timed]
  · rw [if_neg fun both => read ⟨both.1, both.2.1⟩]
    have unread : (kind == 1 && t.world.playing) = false := by simpa using read
    simp [timedReads, framesRead, unread]

theorem playing_of_look {kind : Int32} (ran : nextMessage s = .ok kind t) (playing : t.world.playing = true) :
    s.world.playing = true :=
  (Passes.nextMessage.of_ok ran).lapse.playing rfl playing

theorem timed_of_look (ran : nextMessage s = .ok 1 t) (timed : Timed t) : Timed s := by
  cases nextMessage_glance (playing_of_look ran timed.1) ran with
  | reads _ now signon _ => exact (timed_read_iff now signon).1 timed

/-- However signing on goes meanwhile, a timed demo is read once at most after it. -/
theorem timedReads_le_one (fuel : Nat) (s : Session) : (timedReads (looksWithin fuel s)).length ≤ 1 := by
  induction fuel generalizing s with
  | zero => exact Nat.zero_le _
  | succ fuel ih =>
    by_cases timed : Timed s
    · exact (List.length_filter_le _ _).trans (framesRead_of_timed timed _)
    cases ran : nextMessage s with
    | error fault t =>
      rw [looksWithin_of_error ran]
      exact Nat.zero_le _
    | ok kind t =>
      have unread : ¬ (kind = 1 ∧ Timed t) := by
        rintro ⟨rfl, read⟩
        exact timed (timed_of_look ran read)
      rw [looksWithin_of_ok ran, timedReads_cons, if_neg unread]
      split
      · exact Nat.zero_le _
      · split
        · cases obeyMessage t with
          | error fault u => exact Nat.zero_le _
          | ok _ u =>
            change (timedReads (if u.world.connected then looksWithin fuel u else [])).length ≤ 1
            split
            · exact ih u
            · exact Nat.zero_le _
        · exact Nat.zero_le _

/-- A demo that is timed and signed on when all is read has been read in this frame. -/
theorem timedReads_pos {fuel : Nat} (ran : readWithin fuel s = .ok () t) (timed : Timed t)
    (connected : s.world.playing = true → s.world.connected = true)
    (unspent : s.world.timing.active = true → s.world.frames ≠ s.world.timing.lastFrame) :
    1 ≤ (timedReads (looksWithin fuel s)).length := by
  induction fuel generalizing s with
  | zero => cases ran
  | succ fuel ih =>
    have playing : s.world.playing = true := ((Passes.readWithin (fuel + 1)).of_ok ran).lapse.playing rfl timed.1
    rw [readWithin] at ran
    obtain ⟨kind, m, look, ran⟩ := Act.bind_ok.1 ran
    cases nextMessage_glance playing look with
    | waits due same =>
      cases ran
      have before : Timed s := by
        have active : (frameDue s.world).2.active = true :=
          (congrArg (fun s => s.world.timing.active) same).symm.trans timed.2.1
        rw [frameDue_active] at active
        exact ⟨playing, active, (congrArg (fun s => s.world.signon) same).symm.trans timed.2.2⟩
      have ready := frameDue_of_timed before.2.1 before.2.2
      rw [if_neg (unspent before.2.1)] at ready
      cases due.symm.trans ready.1
    | ends _ finished =>
      cases ran
      cases finished.quiet.symm.trans timed.1
    | reads _ now signon same =>
      have going : m.world.playing = true := (congrArg Stopwatch.playing now).trans playing
      obtain ⟨u, obeyed, outcome⟩ := obeyMessage_kept going
      change (obeyMessage >>= fun _ => ask >>= fun c => if c.connected then readWithin fuel else pure ()) m = _ at ran
      rw [Act.bind_of_ok obeyed, ask_at] at ran
      rw [looksWithin_of_one look obeyed, timedReads_cons]
      split
      · exact Nat.le_add_left ..
      · rename_i unread
        have before : ¬ (s.world.timing.active = true ∧ s.world.signon = signons) := fun before =>
          unread ⟨rfl, (timed_read_iff now signon).2 ⟨playing, before⟩⟩
        rcases outcome with kept | finished
        · have on : u.world.connected = true := kept.connected.trans (same.trans (connected playing))
          rw [if_pos on] at ran ⊢
          refine ih ran (fun _ => on) ?_
          have timing : u.world.timing = s.world.timing :=
            (congrArg Stopwatch.timing (kept.stopwatch.trans now)).trans (frameDue_of_untimed before)
          have frames : u.world.frames = s.world.frames := congrArg Stopwatch.frames (kept.stopwatch.trans now)
          rw [timing, frames]
          exact unspent
        · rw [if_neg (by simp [finished.off])] at ran
          cases ran
          cases finished.quiet.symm.trans timed.1

/-- What is known where messages begin to be read, or are not. -/
structure Approached (reads : Bool) (s : Session) : Prop where
  off : reads = false → s.world.connected = false
  on : reads = true → s.world.playing = true → s.world.connected = true

/-- Sending begins no demo. -/
theorem quiet_sendCommands : Act.Upholds (fun s : Session => s.world.playing = false) sendCommands := by
  have untimed {α : Type} {act : Act Session α} (untimed : Untimed act) :
      Act.Upholds (fun s : Session => s.world.playing = false) act :=
    fun s quiet => (congrArg Stopwatch.playing (untimed s)).trans quiet
  have cleared : Act.Upholds (fun s : Session => s.world.playing = false)
      (change fun c => { c with outgoing := c.outgoing.clear }) := untimed (.change fun _ => rfl)
  have ended (message : Text) : Act.Upholds (fun s : Session => s.world.playing = false) (gameError message) := by
    intro s quiet
    by_contra playing
    have passed : Passes true s (gameError message) := .gameError message
    exact nomatch quiet.symm.trans (passed.lapse.playing rfl (by simpa using playing))
  intro s quiet
  unfold sendCommands
  rw [ask_at]
  split
  · exact quiet
  · split
    · exact Act.Upholds.bind (untimed (.print _)) (fun _ => cleared) s quiet
    · cases s.world.net with
      | none => exact quiet
      | some net =>
        cases s.world.socket with
        | none => exact quiet
        | some socket =>
          refine Act.Upholds.bind (untimed (.exchange _ _)) (fun ready t now => ?_) s quiet
          split
          · rw [ask_at]
            refine Act.Upholds.bind (untimed (.exchange _ _)) (fun answer => ?_) t now
            split
            · exact ended _
            · exact cleared
          · exact now

theorem approached_of_serve {seconds : Double} {reads : Bool} (ran : serve seconds s = .ok reads t) :
    Approached reads t := by
  unfold serve at ran
  rw [ask_at] at ran
  split at ran
  · rename_i connected
    obtain ⟨_, m, sent, ran⟩ := Act.bind_ok.1 ran
    cases ran
    refine ⟨fun none => (nomatch none), fun _ playing => ?_⟩
    have before : s.world.playing = true := by
      by_contra quiet
      have after := quiet_sendCommands s (Bool.eq_false_iff.2 quiet)
      rw [sent] at after
      exact nomatch playing.symm.trans after
    -- nothing is sent while a demo plays
    unfold sendCommands at sent
    rw [ask_at, if_pos (by simp [before])] at sent
    cases sent
    exact connected
  · rename_i off
    cases ran
    exact ⟨fun _ => by simpa using off, fun none => (nomatch none)⟩

theorem approached {seconds : Double} {reads : Bool} (ran : approach seconds s = .ok reads t) : Approached reads t := by
  unfold approach at ran
  obtain ⟨_, _, _, ran⟩ := Act.bind_ok.1 ran
  rw [ask_at] at ran
  obtain ⟨_, _, _, ran⟩ := Act.bind_ok.1 ran
  obtain ⟨_, _, _, ran⟩ := Act.bind_ok.1 ran
  rw [ask_at] at ran
  dsimp only at ran
  split at ran
  · obtain ⟨_, _, _, ran⟩ := Act.bind_ok.1 ran
    exact approached_of_serve ran
  · exact approached_of_serve ran

theorem looksIn_of_approach {seconds : Double} {reads : Bool} (ran : approach seconds s = .ok reads m) :
    looksIn (.frame seconds) s = if reads then looksWithin (backlog m.world + 1) m else [] := by
  rw [looksIn, ran]
  rfl

theorem timedReads_looksIn (seconds : Double) (s : Session) : (timedReads (looksIn (.frame seconds) s)).length ≤ 1 := by
  cases ran : approach seconds s with
  | error fault m =>
    rw [looksIn, ran]
    exact Nat.zero_le _
  | ok reads m =>
    rw [looksIn_of_approach ran]
    split
    · exact timedReads_le_one _ _
    · exact Nat.zero_le _

/-- So many frames are counted, and a timed demo was read last in one below the bound. -/
structure Latched (count bound : Int) (w : Stopwatch) : Prop where
  frames : w.frames.toInt = count
  last : w.timing.active = true → w.timing.lastFrame.toInt < bound

/-- Whether a demo plays does not matter here. -/
theorem Latched.of_dial {count bound : Int} (latched : Latched count bound (stopwatch s)) (same : dial t = dial s) :
    Latched count bound (stopwatch t) := by
  have timing : t.world.timing = s.world.timing := congrArg Stopwatch.timing same
  refine ⟨(congrArg (fun w => w.frames.toInt) same).trans latched.frames, ?_⟩
  change t.world.timing.active = true → t.world.timing.lastFrame.toInt < bound
  rw [timing]
  exact latched.last

theorem Lapse.latched {reading : Bool} {count bound : Int} (lapse : Lapse reading s t)
    (beyond : reading = true → count < bound) (latched : Latched count bound (stopwatch s)) :
    Latched count bound (stopwatch t) := by
  refine ⟨(congrArg Int32.toInt lapse.frames).trans latched.frames, fun timed => ?_⟩
  have active : s.world.timing.active = true := lapse.active timed
  change t.world.timing.lastFrame.toInt < bound
  rcases lapse.last with same | ⟨looks, now⟩
  · rw [same]
    exact latched.last active
  · rw [now]
    exact lt_of_eq_of_lt latched.frames (beyond looks)

theorem Happened.latched {event : Event} {count bound : Int} (happened : Happened s event t) (early : event ≠ .counted)
    (positive : 0 ≤ bound) (latched : Latched count bound (stopwatch s)) : Latched count bound (stopwatch t) := by
  cases happened with
  | queued _ _ _ _ _ untimed | dropped _ _ untimed | answered _ _ _ untimed | joined _ untimed =>
    exact latched.of_dial (dial_of_same untimed)
  | offered _ => exact latched
  | timed _ =>
    exact ⟨latched.frames, fun _ => Int.lt_of_lt_of_le (show (-1 : Int32).toInt < 0 by decide) positive⟩
  | supplanted _ _ _ _ same => exact latched.of_dial same
  | counted => exact absurd rfl early

theorem Advance.latched {h n : LoggedSession} {count bound : Int} (advance : Advance false h n) (positive : 0 ≤ bound)
    (latched : Latched count bound (stopwatch (plain h))) : Latched count bound (stopwatch (plain n)) := by
  cases advance with
  | called passage within _ => exact passage.lapse.latched (fun looks => nomatch within looks) latched
  | noted happened within _ => exact happened.latched (fun counted => nomatch within counted) positive latched

theorem Advances.latched {h n : LoggedSession} {count bound : Int} (path : Advances false h n) (positive : 0 ≤ bound)
    (latched : Latched count bound (stopwatch (plain h))) : Latched count bound (stopwatch (plain n)) := by
  induction path with
  | here => exact latched
  | step first _ ih => exact ih (first.latched positive latched)

theorem latched_of_approach {count bound : Int} {seconds : Double} {reads : Bool} (ran : approach seconds s = .ok reads t)
    (positive : 0 ≤ bound) (latched : Latched count bound (stopwatch s)) : Latched count bound (stopwatch t) := by
  have mirrors : Mirrors false (opened s) (Logged.approach seconds) (approach seconds) := .approach seconds
  obtain ⟨n, _, path, rfl⟩ := mirrors.advances ran
  exact path.latched positive latched

/-- A frame that can be counted counts one more, and what was read last was read before it. -/
theorem latched_of_frame {count : Int} {seconds : Double} (ran : frame seconds s = .ok () t) (positive : 0 ≤ count)
    (few : count + 1 < 2 ^ 31) (latched : Latched count count (stopwatch s)) :
    Latched (count + 1) (count + 1) (stopwatch t) := by
  obtain ⟨reads, m, u, came, read, rfl⟩ := frame_ok ran
  have there := latched_of_approach came positive latched
  have loose : Latched count (count + 1) (stopwatch m) :=
    ⟨there.frames, fun timed => Int.lt_trans (there.last timed) (Int.lt_succ count)⟩
  have lapse : Lapse true m u := by
    cases reads with
    | false =>
      cases read
      exact lapse_of_same rfl
    | true => exact (Passes.readServer.of_ok read).lapse
  have after := lapse.latched (fun _ => Int.lt_succ count) loose
  refine ⟨?_, after.last⟩
  change (u.world.frames + 1).toInt = count + 1
  rw [Int32.toInt_add, show u.world.frames.toInt = count from after.frames, show (1 : Int32).toInt = 1 by decide]
  exact Int.bmod_eq_of_le (by omega) (by omega)

theorem latched_of_turn {count : Int} {turn : Turn} (ran : turn.act s = .ok () t) (positive : 0 ≤ count)
    (few : count + completed turn s < 2 ^ 31) (latched : Latched count count (stopwatch s)) :
    Latched (count + completed turn s) (count + completed turn s) (stopwatch t) := by
  rcases Mirrors.turn_or_frame turn with ⟨seconds, rfl⟩ | ⟨part, none⟩
  · have one : completed (.frame seconds) s = 1 := completed_of_ok ran
    rw [one] at few ⊢
    exact latched_of_frame ran positive few latched
  · obtain ⟨n, _, path, rfl⟩ := (part (opened s)).advances ran
    rw [none, Int.natCast_zero, Int.add_zero]
    exact path.latched positive latched

theorem latched_of_inputs {count : Int} {inputs : List Input} {states : List Session}
    (ran : Input.states inputs s = .ok states t) (positive : 0 ≤ count) (few : count + completedAlong inputs s < 2 ^ 31)
    (latched : Latched count count (stopwatch s)) :
    Latched (count + completedAlong inputs s) (count + completedAlong inputs s) (stopwatch t) := by
  induction inputs generalizing s count states with
  | nil =>
    cases ran
    simpa [completedAlong] using latched
  | cons input rest ih =>
    cases input with
    | host turn =>
      obtain ⟨_, m, done, ran⟩ := Act.bind_ok.1 ran
      rw [Act.bind_get] at ran
      obtain ⟨later, u, onward, ran⟩ := Act.bind_ok.1 ran
      cases ran
      rw [completedAlong_of_ok done] at few ⊢
      rw [Int.natCast_add, ← Int.add_assoc] at few ⊢
      exact ih onward (by omega) few (latched_of_turn done positive (by omega) latched)
    | happen happening =>
      obtain ⟨_, m, changed, ran⟩ := Act.bind_ok.1 ran
      cases changed
      exact ih ran positive few latched

/-- A timed demo that is played on and signed on at the end of a frame has been read once in it since it was signed on,
and so once altogether if that was before messages were read. -/
theorem frame_reads_once {count : Int} {seconds : Double} (ready : Ready s) (anchored : Anchored (core s))
    (positive : 0 ≤ count) (latched : Latched count count (stopwatch s)) (ran : frame seconds s = .ok () t)
    (timed : Timed t) :
    (timedReads (looksIn (.frame seconds) s)).length = 1 ∧
      ∀ m, approach seconds s = .ok true m → Timed m → (framesRead (looksIn (.frame seconds) s)).length = 1 := by
  obtain ⟨reads, m, u, came, read, rfl⟩ := frame_ok ran
  have timed : Timed u := timed
  have way := approached came
  have anchored : Anchored (core m) := by
    have told : Told s [] (approach seconds s) := Paces.approach seconds ready
    rw [came] at told
    cases told with
    | ok strides _ => exact (strides.deeds ready).moves.anchored anchored
  cases reads with
  | false =>
    cases read
    exact nomatch (way.off rfl).symm.trans (anchored.watched timed.1)
  | true =>
  have read : readWithin (backlog m.world + 1) m = .ok () u := read
  have there := latched_of_approach came positive latched
  have once : 1 ≤ (timedReads (looksIn (.frame seconds) s)).length := by
    rw [looksIn_of_approach came]
    refine timedReads_pos read timed (way.on rfl) fun active same => ?_
    have last : m.world.timing.lastFrame.toInt < count := there.last active
    rw [← same, show m.world.frames.toInt = count from there.frames] at last
    exact Int.lt_irrefl _ last
  refine ⟨Nat.le_antisymm (timedReads_looksIn seconds s) once, fun n there timed => ?_⟩
  cases came.symm.trans there
  refine Nat.le_antisymm ?_ (once.trans (List.length_filter_le _ _))
  rw [looksIn_of_approach came]
  exact framesRead_of_timed timed _

end GameHost.Client
