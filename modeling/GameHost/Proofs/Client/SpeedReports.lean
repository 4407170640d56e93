import GameHost.Proofs.Client.Metering

/-!
The report of a timed demo. It counts the frames of the host that have been completed since the command to time the demo
was obeyed, less the first one, and it is made where the demo ends, unless a recording has taken the place of the demo.
-/
namespace GameHost.Client
open GameHost.Network (Driver)
open Logged

/-- The frames completed since a demo was last begun to be timed, after one more event. -/
def Event.tally (count : Option Nat) : Event → Option Nat
  | .timed => some 0
  | .counted => count.map (· + 1)
  | _ => count

/-- The frames completed since a demo was last begun to be timed, if one was. -/
def since (events : List Event) : Option Nat := events.foldl Event.tally none

/-- Whether a timed demo is underway, after one more event. -/
def Event.keepsUp (going : Bool) : Event → Bool
  | .timed => true
  | .finished _ | .supplanted => false
  | _ => going

/-- Whether the demo last begun to be timed has neither come to its report nor given way to a recording. -/
def underway (events : List Event) : Bool := events.foldl Event.keepsUp false

/-- The report that is the last one, after one more event. -/
def Event.reported (earlier : Option SpeedReport) : Event → Option SpeedReport
  | .finished report => some report
  | _ => earlier

/-- The events of a journal. -/
def eventsOf (log : List Mark) : List Event := log.map Mark.event

/-- So many frames have been completed since a demo was last begun to be timed, and it may be underway. -/
structure Clocked (count : Option Nat) (going : Bool) (w : Stopwatch) : Prop where
  known : w.timing.active = true → count.isSome = true
  gap : ∀ n, count = some n → w.frames = w.timing.startFrame + Int32.ofNat n
  going : going = true → w.playing = true ∧ w.timing.active = true

variable {s t : Session} {h n : LoggedSession} {count : Option Nat} {going : Bool}

theorem clocked_of_untimed (untimed : s.world.timing.active = false) : Clocked none false (stopwatch s) :=
  ⟨fun timed => (nomatch untimed.symm.trans timed), fun _ none => (nomatch none), fun on => nomatch on⟩

theorem Clocked.of_same (clocked : Clocked count going (stopwatch s)) (same : stopwatch t = stopwatch s) :
    Clocked count going (stopwatch t) := by
  rw [same]
  exact clocked

theorem tally_le {events : List Event} {n : Nat} (some : events.foldl Event.tally count = some n) :
    n ≤ count.getD 0 + events.count .counted := by
  induction events generalizing count with
  | nil =>
    cases some
    exact Nat.le_refl n
  | cons event later ih =>
    have bound := ih some
    cases event with
    | counted =>
      have step : (Event.tally count .counted).getD 0 ≤ count.getD 0 + 1 := by cases count <;> simp [Event.tally]
      rw [List.count_cons_self]
      omega
    | timed =>
      rw [List.count_cons_of_ne (by decide)]
      exact bound.trans (Nat.add_le_add_right (Nat.zero_le _) _)
    | queued | dropped | offered | answered | joined | finished | supplanted =>
      rw [List.count_cons_of_ne (by simp)]
      exact bound

theorem speed_frames {c : Client} {n : Nat} (gap : c.frames = c.timing.startFrame + Int32.ofNat n) (few : n < 2 ^ 31) :
    (speed c).frames.toInt = max 0 ((n : Int) - 1) := by
  have passed : (c.frames - c.timing.startFrame - 1).toInt = (n : Int) - 1 := by
    rw [gap, Int32.add_comm, Int32.add_sub_cancel, Int32.toInt_sub, Int32.toInt_ofNat_of_lt few,
      show (1 : Int32).toInt = 1 by decide]
    exact Int.bmod_eq_of_le (by omega) (by omega)
  change (if c.frames - c.timing.startFrame - 1 < 0 then 0 else c.frames - c.timing.startFrame - 1 : Int32).toInt = _
  split
  · rename_i early
    rw [Int32.lt_iff_toInt_lt, passed] at early
    exact (max_eq_left (le_of_lt early)).symm
  · rename_i late
    rw [Int32.lt_iff_toInt_lt, passed] at late
    rw [passed]
    exact (max_eq_right (not_lt.1 late)).symm

/-- A call in passing notes nothing, or the report of the timed demo that ends in it. -/
theorem Lapse.remarked {reading : Bool} (lapse : Lapse reading s t) :
    (remarks s t = [] ∧ t.world.timing.active = s.world.timing.active ∧ t.world.report = s.world.report) ∨
      ∃ r, remarks s t = [⟨.finished r, t.world.outgoing⟩] ∧ s.world.timing.active = true ∧
        t.world.timing.active = false ∧ t.world.report = some r ∧ r.frames = (speed s.world).frames := by
  rcases lapse.report with ⟨active, report⟩ | ⟨active, ended, r, made, frames⟩
  · exact .inl ⟨remarks_of_active active, active, report⟩
  · refine .inr ⟨r, ?_, active, ended, made, frames⟩
    unfold remarks
    rw [active, ended, made]
    rfl

theorem Clocked.of_gap (clocked : Clocked count going (stopwatch s)) {up : Bool} (frames : t.world.frames = s.world.frames)
    (start : t.world.timing.startFrame = s.world.timing.startFrame)
    (known : t.world.timing.active = true → s.world.timing.active = true)
    (still : up = true → t.world.playing = true ∧ t.world.timing.active = true) : Clocked count up (stopwatch t) := by
  refine ⟨fun timed => clocked.known (known timed), fun n some => ?_, still⟩
  have gap : s.world.frames = s.world.timing.startFrame + Int32.ofNat n := clocked.gap n some
  change t.world.frames = t.world.timing.startFrame + Int32.ofNat n
  rw [frames, start, gap]

theorem Happened.clocked {event : Event} (happened : Happened s event t) (clocked : Clocked count going (stopwatch s)) :
    Clocked (event.tally count) (event.keepsUp going) (stopwatch t) := by
  cases happened with
  | queued _ _ _ _ _ untimed | dropped _ _ untimed | answered _ _ _ untimed | joined _ untimed =>
    exact clocked.of_same untimed
  | offered _ => exact clocked
  | timed playing =>
    refine ⟨fun _ => rfl, fun n none => ?_, fun _ => ⟨playing, rfl⟩⟩
    cases none
    exact (Int32.add_zero s.world.frames).symm
  | supplanted _ _ _ _ same =>
    have timing : t.world.timing = s.world.timing := congrArg Stopwatch.timing same
    exact clocked.of_gap (congrArg Stopwatch.frames same) (by rw [timing]) (by rw [timing]; exact id) fun on => nomatch on
  | counted =>
    refine ⟨fun timed => ?_, fun n some => ?_, clocked.going⟩
    · simpa [Event.tally] using clocked.known timed
    · obtain ⟨before, known, rfl⟩ := Option.map_eq_some_iff.1 some
      have gap : s.world.frames = s.world.timing.startFrame + Int32.ofNat before := clocked.gap before known
      change s.world.frames + 1 = s.world.timing.startFrame + Int32.ofNat (before + 1)
      rw [Int32.ofNat_add, ← Int32.add_assoc, ← gap]
      rfl

theorem Happened.unreported {event : Event} (happened : Happened s event t) :
    t.world.report = event.reported s.world.report ∧ ∀ r, event ≠ .finished r := by
  cases happened with
  | queued _ _ _ _ _ untimed | dropped _ _ untimed | answered _ _ _ untimed | joined _ untimed =>
    exact ⟨congrArg Stopwatch.report untimed, nofun⟩
  | offered _ | timed _ | counted => exact ⟨rfl, nofun⟩
  | supplanted _ _ _ _ same => exact ⟨congrArg Stopwatch.report same, nofun⟩

/-- What the journal of a session tells of the demos that are timed. -/
structure Timekeeping (start : Session) (h : LoggedSession) : Prop where
  clocked : Clocked (since (eventsOf h.world.log)) (underway (eventsOf h.world.log)) (stopwatch (plain h))
  report : h.world.client.report = (eventsOf h.world.log).foldl Event.reported start.world.report
  frames : ∀ early r later, eventsOf h.world.log = early ++ .finished r :: later →
    ∃ n, since early = some n ∧ (n < 2 ^ 31 → r.frames.toInt = max 0 ((n : Int) - 1))

namespace Timekeeping

variable {start : Session}

theorem opened (untimed : start.world.timing.active = false) : Timekeeping start (opened start) :=
  ⟨clocked_of_untimed untimed, rfl, fun early r later split => absurd split (by cases early <;> exact nofun)⟩

theorem marked (timekeeping : Timekeeping start h) {event : Event} {queue : Message.Buffer}
    (log : n.world.log = h.world.log ++ [⟨event, queue⟩])
    (clocked : Clocked (event.tally (since (eventsOf h.world.log))) (event.keepsUp (underway (eventsOf h.world.log)))
      (stopwatch (plain n)))
    (report : n.world.client.report = event.reported h.world.client.report)
    (frames : ∀ r, event = .finished r →
      ∃ n, since (eventsOf h.world.log) = some n ∧ (n < 2 ^ 31 → r.frames.toInt = max 0 ((n : Int) - 1))) :
    Timekeeping start n := by
  have longer : eventsOf n.world.log = eventsOf h.world.log ++ [event] := by simp [eventsOf, log]
  refine ⟨?_, ?_, fun early r later split => ?_⟩
  · rw [longer, since, underway, List.foldl_append, List.foldl_append]
    exact clocked
  · rw [report, longer, List.foldl_append, timekeeping.report]
    rfl
  · rw [longer] at split
    rcases split_of_append_one split with ⟨rfl, last⟩ | ⟨more, before⟩
    · exact frames r last
    · exact timekeeping.frames early r more before

theorem lapsed {reading : Bool} (timekeeping : Timekeeping start h) (lapse : Lapse reading (plain h) (plain n))
    (log : n.world.log = h.world.log ++ remarks (plain h) (plain n)) : Timekeeping start n := by
  obtain ⟨clocked, report, frames⟩ := timekeeping
  rcases lapse.remarked with ⟨none, active, same⟩ | ⟨r, one, active, ended, made, counts⟩
  · rw [none, List.append_nil] at log
    rw [← log] at clocked report frames
    refine ⟨clocked.of_gap lapse.frames lapse.start lapse.active fun on => ?_, same.trans report, frames⟩
    have now : n.world.client.timing.active = true := active.trans (clocked.going on).2
    exact ⟨lapse.onward (clocked.going on).1 now, now⟩
  · rw [one] at log
    refine marked ⟨clocked, report, frames⟩ log ?_ made fun r' same => ?_
    · exact clocked.of_gap lapse.frames lapse.start lapse.active fun on => nomatch on
    · cases same
      obtain ⟨n, known⟩ := Option.isSome_iff_exists.1 (clocked.known active)
      refine ⟨n, known, fun few => ?_⟩
      rw [counts]
      exact speed_frames (clocked.gap n known) few

theorem advance {whole : Bool} (timekeeping : Timekeeping start h) (advance : Advance whole h n) : Timekeeping start n := by
  cases advance with
  | called passage _ log => exact timekeeping.lapsed passage.lapse log
  | noted happened _ log =>
    obtain ⟨report, other⟩ := happened.unreported
    exact timekeeping.marked log (happened.clocked timekeeping.clocked) report fun r same => absurd same (other r)

theorem advances {whole : Bool} (timekeeping : Timekeeping start h) (path : Advances whole h n) : Timekeeping start n := by
  induction path with
  | here => exact timekeeping
  | step first _ ih => exact ih (timekeeping.advance first)

/-- Where a run fails, what the journal tells is still so. -/
theorem stuck (timekeeping : Timekeeping start h) (stuck : Stuck h n) : Timekeeping start n := by
  have report : n.world.client.report = h.world.client.report := congrArg Stopwatch.report stuck.untimed
  obtain ⟨clocked, same, frames⟩ := timekeeping
  rw [← stuck.log] at clocked same frames
  exact ⟨clocked.of_same stuck.untimed, report.trans same, frames⟩

theorem reached {whole : Bool} {α : Type} {outcome : EStateM.Result Fault LoggedSession α} (timekeeping : Timekeeping start h)
    (reached : Reached whole h outcome) : Timekeeping start (Act.final outcome) := by
  cases reached with
  | ok path => exact timekeeping.advances path
  | error path stuck => exact (timekeeping.advances path).stuck stuck

end Timekeeping

/-- The frames that a journal tells to be completed. -/
def ticks (h : LoggedSession) : Nat := (eventsOf h.world.log).count .counted

theorem ticks_append {log : List Mark} (longer : n.world.log = h.world.log ++ log) :
    ticks n = ticks h + (eventsOf log).count .counted := by
  rw [ticks, longer, eventsOf, List.map_append, List.count_append]
  rfl

theorem ticks_remarks (s t : Session) : (eventsOf (remarks s t)).count .counted = 0 := by
  unfold remarks
  split
  · cases t.world.report <;> rfl
  · rfl

theorem ticks_noting (h : LoggedSession) (t : Session) : ticks (noting h t) = ticks h := by
  rw [ticks_append (h := h) rfl, ticks_remarks]
  rfl

theorem Advance.ticks (advance : Advance false h n) : ticks n = ticks h := by
  cases advance with
  | called _ _ log => rw [ticks_append log, ticks_remarks, Nat.add_zero]
  | @noted event _ within log =>
    have other : (eventsOf [⟨event, n.world.client.outgoing⟩]).count .counted = 0 :=
      List.count_eq_zero.2 fun member => nomatch within (List.mem_singleton.1 member).symm
    rw [ticks_append log, other, Nat.add_zero]

theorem Advances.ticks (path : Advances false h n) : ticks n = ticks h := by
  induction path with
  | here => rfl
  | step first _ ih => exact ih.trans first.ticks

/-- No frame is completed in what is only a part of one. -/
theorem Mirrors.ticks {α : Type} {logged : Act LoggedSession α} {act : Act Session α} (mirrors : Mirrors false h logged act) :
    ticks (Act.final (logged h)) = ticks h := by
  have reached := mirrors.reached
  revert reached
  cases logged h with
  | ok a t =>
    rintro ⟨path⟩
    exact path.ticks
  | error fault t =>
    rintro (_ | ⟨path, stuck⟩)
    rw [← path.ticks]
    exact congrArg (fun log => (eventsOf log).count Event.counted) stuck.log

theorem ticks_plainly {α : Type} (act : Act Session α) (h : LoggedSession) : ticks (Act.final (plainly act h)) = ticks h := by
  cases ran : act (plain h) with
  | ok a t =>
    rw [plainly_of_ok ran]
    exact ticks_noting h t
  | error fault t =>
    rw [plainly_of_error ran]
    exact ticks_noting h t

theorem ticks_countFrame (h : LoggedSession) : ∃ n, countFrame h = .ok () n ∧ ticks n = ticks h + 1 := by
  have unremarked : remarks (plain h) { plain h with world.frames := h.world.client.frames + 1 } = [] :=
    remarks_of_active rfl
  let n : LoggedSession := ⟨h.shell, { h.world.client with frames := h.world.client.frames + 1 }, h.world.log ++
    [⟨.counted, h.world.client.outgoing⟩]⟩
  have longer : n.world.log = h.world.log ++ [⟨.counted, h.world.client.outgoing⟩] := rfl
  exact ⟨n, change_noted .counted unremarked, ticks_append longer⟩

/-- A frame that is completed is noted once. -/
theorem ticks_frame (seconds : Double) (h : LoggedSession) :
    ticks (Act.final (Logged.frame seconds h)) = ticks h + completed (.frame seconds) (plain h) := by
  have alike : erased (Logged.frame seconds h) = frame seconds (plain h) := (Mirrors.frame seconds).alike
  have steady : ticks (Act.final (Logged.approach seconds h)) = ticks h := (Mirrors.approach seconds).ticks
  have failed {fault : Fault} {m : LoggedSession} (ran : Logged.frame seconds h = .error fault m)
      (same : ticks m = ticks h) :
      ticks (Act.final (Logged.frame seconds h)) = ticks h + completed (.frame seconds) (plain h) := by
    rw [ran] at alike ⊢
    rw [completed_of_error alike.symm]
    exact same
  have counted {m : LoggedSession} (ran : Logged.frame seconds h = countFrame m) (same : ticks m = ticks h) :
      ticks (Act.final (Logged.frame seconds h)) = ticks h + completed (.frame seconds) (plain h) := by
    obtain ⟨n, ended, one⟩ := ticks_countFrame m
    rw [ran, ended] at alike ⊢
    rw [completed_of_ok alike.symm, ← same]
    exact one
  cases came : Logged.approach seconds h with
  | error fault m =>
    rw [came] at steady
    exact failed (Act.bind_of_error came) steady
  | ok reads m =>
    rw [came] at steady
    cases reads with
    | false => exact counted (Act.bind_of_ok came) steady
    | true =>
      have read := ticks_plainly readServer m
      cases ran : plainly readServer m with
      | error fault u =>
        rw [ran] at read
        exact failed ((Act.bind_of_ok came).trans (Act.bind_of_error ran)) (read.trans steady)
      | ok _ u =>
        rw [ran] at read
        exact counted ((Act.bind_of_ok came).trans (Act.bind_of_ok ran)) (read.trans steady)

theorem ticks_turn (turn : Turn) (h : LoggedSession) :
    ticks (Act.final (Logged.turn turn h)) = ticks h + completed turn (plain h) := by
  rcases Mirrors.turn_or_frame turn with ⟨seconds, rfl⟩ | ⟨part, none⟩
  · exact ticks_frame seconds h
  · rw [(part h).ticks, none, Nat.add_zero]

/-- The journal of a run notes every frame that is completed. -/
theorem ticks_states (inputs : List Input) (h : LoggedSession) :
    ticks (Act.final (Logged.states inputs h)) = ticks h + completedAlong inputs (plain h) := by
  induction inputs generalizing h with
  | nil => rfl
  | cons input rest ih =>
    cases input with
    | host turn =>
      have alike : erased (Logged.turn turn h) = turn.act (plain h) := (Mirrors.turn turn).alike
      have first := ticks_turn turn h
      cases ran : Logged.turn turn h with
      | error fault m =>
        rw [ran] at alike first
        rw [completedAlong_of_error alike.symm]
        exact (congrArg (fun o => ticks (Act.final o)) (Act.bind_of_error ran)).trans first
      | ok _ m =>
        rw [ran] at alike first
        rw [completedAlong_of_ok alike.symm, ← Nat.add_assoc, ← show ticks m = _ from first, ← ih m]
        have onward : Logged.states (.host turn :: rest) h = (do
            let later ← Logged.states rest
            return plain m :: later) m := Act.bind_of_ok ran
        rw [onward, Act.final_bind_pure]
    | happen happening =>
      let t : Session := { plain h with world.net := h.world.client.net.map (Driver.onLoopback happening.change) }
      have changed : change (fun c => { c with net := c.net.map (Driver.onLoopback happening.change) }) (plain h) =
          .ok () t := rfl
      have onward : Logged.states (.happen happening :: rest) h = Logged.states rest (noting h t) :=
        Act.bind_of_ok (plainly_of_ok changed)
      rw [onward, ih, ticks_noting]
      rfl

/-- How a run accounts for the timed demos that are begun in it. -/
structure Accounted (s : Session) (inputs : List Input) : Prop where
  /-- The journal is that of this very run. -/
  alike : erased (Logged.states inputs (opened s)) = Input.states inputs s
  /-- Every frame that is completed is in it, and no other. -/
  counted : (eventsOf (journal inputs s)).count .counted = completedAlong inputs s
  /-- A timed demo plays on until it comes to its report or a recording takes its place. -/
  plays : underway (eventsOf (journal inputs s)) = true →
    (Act.final (Input.states inputs s)).world.playing = true ∧
      (Act.final (Input.states inputs s)).world.timing.active = true
  /-- No report comes from elsewhere. -/
  report : (Act.final (Input.states inputs s)).world.report =
    (eventsOf (journal inputs s)).foldl Event.reported s.world.report
  /-- A report counts the frames completed since the demo was begun, less one. -/
  frames : ∀ early r later, eventsOf (journal inputs s) = early ++ .finished r :: later →
    ∃ n, since early = some n ∧ r.frames.toInt = max 0 ((n : Int) - 1)

theorem accounted (inputs : List Input) (untimed : s.world.timing.active = false)
    (few : completedAlong inputs s < 2 ^ 31) : Accounted s inputs := by
  have mirrors : Mirrors true (opened s) (Logged.states inputs) (Input.states inputs) := .states inputs
  have timekeeping : Timekeeping s (Act.final (Logged.states inputs (opened s))) :=
    (Timekeeping.opened untimed).reached mirrors.reached
  have ending : plain (Act.final (Logged.states inputs (opened s))) = Act.final (Input.states inputs s) := by
    rw [show Input.states inputs s = _ from mirrors.alike.symm]
    cases Logged.states inputs (opened s) <;> rfl
  have counted : (eventsOf (journal inputs s)).count .counted = completedAlong inputs s :=
    (ticks_states inputs (opened s)).trans (Nat.zero_add _)
  have clocked := timekeeping.clocked
  rw [ending] at clocked
  refine ⟨mirrors.alike, counted, clocked.going, ?_, fun early r later split => ?_⟩
  · rw [← ending]
    exact timekeeping.report
  · obtain ⟨n, known, frames⟩ := timekeeping.frames early r later split
    refine ⟨n, known, frames ?_⟩
    have bound := tally_le known
    rw [split, List.count_append] at counted
    rw [Option.getD_none] at bound
    omega

/-- In a frame of the host, a timed demo is read once at most after the client is signed on; exactly once if it is played
on, signed on, at the end of the frame, and then nothing else is read of it if it was so before messages were read. The
journal of every run accounts for the demos timed in it: a report counts the frames completed since the command to time
the demo was obeyed, less one. -/
theorem timed_demo_metered :
    (∀ seconds s, (timedReads (looksIn (.frame seconds) s)).length ≤ 1) ∧
    (∀ s inputs, Fresh s → 0 ≤ s.world.frames.toInt → s.world.frames.toInt + completedAlong inputs s < 2 ^ 31 →
      ∀ states m seconds t, Input.states inputs s = .ok states m → frame seconds m = .ok () t → Timed t →
        (timedReads (looksIn (.frame seconds) m)).length = 1 ∧
        ∀ n, approach seconds m = .ok true n → Timed n → (framesRead (looksIn (.frame seconds) m)).length = 1) ∧
    ∀ s inputs, s.world.timing.active = false → completedAlong inputs s < 2 ^ 31 → Accounted s inputs := by
  refine ⟨timedReads_looksIn, fun s inputs fresh early few states m seconds t ran framed timed => ?_,
    fun s inputs => accounted inputs⟩
  have told : Told s (looksAlong inputs s) (Input.states inputs s) := Told.inputs inputs fresh.ready
  rw [ran] at told
  have start : Latched s.world.frames.toInt s.world.frames.toInt (stopwatch s) :=
    ⟨rfl, fun timed => nomatch fresh.timed.symm.trans timed⟩
  have linked : Anchored (core s) :=
    ⟨.of_unlinked fresh.socket, fun playing => nomatch playing.symm.trans (congrArg Demo.Activity.isPlaying fresh.idle)⟩
  cases told with
  | ok strides _ =>
    have moves := (strides.deeds fresh.ready).moves
    exact frame_reads_once (moves.ready fresh.ready) (moves.anchored linked) (by omega)
      (latched_of_inputs ran early few start) framed timed

/-- A session with a demo of three frames, the first of which signs on. -/
def shortDemoStart : Session :=
  Client.newSession (SearchPath.ofBase "/")
    ⟨[(["base".toList], .folder), (["base".toList, "a.dem".toList],
      .file (Packed.ofBytes (10 :: Demo.Frame.encode ⟨.zero, [25, 4]⟩ ++ Demo.Frame.encode ⟨.zero, [1]⟩ ++
        Demo.Frame.encode ⟨.zero, [1]⟩)))], []⟩
    Console.captured

def quarter : Double := ⟨0x3FD0000000000000⟩

/-- The demo is timed, and so many frames follow. -/
def timedInputs (frames : Nat) : List Input :=
  .host (.run "timedemo a" .player) :: List.replicate frames (.host (.frame quarter))

/-- In the second frame one message is read. In the third one the demo is over, two frames having been completed. -/
theorem short_demo_metered :
    (timedReads (looksIn (.frame quarter) (Act.final (Input.states (timedInputs 1) shortDemoStart)))).length = 1 ∧
    (framesRead (looksIn (.frame quarter) (Act.final (Input.states (timedInputs 1) shortDemoStart)))).length = 1 ∧
    ∃ r, eventsOf (journal (timedInputs 3) shortDemoStart) = [.timed, .counted, .counted, .finished r, .counted] ∧
      (Act.final (Input.states (timedInputs 3) shortDemoStart)).world.report = some r ∧ r.frames.toInt = 1 := by
  have fresh : Fresh shortDemoStart := by
    unfold shortDemoStart
    exact fresh_newSession _ _ _
  obtain ⟨went, came, framed, one, three, early, due, later⟩ :
      Act.ends (fun _ _ => true) (Input.states (timedInputs 1) shortDemoStart) = true ∧
      Act.ends (fun reads n => reads && decide (Timed n))
        (approach quarter (Act.final (Input.states (timedInputs 1) shortDemoStart))) = true ∧
      Act.ends (fun _ t => decide (Timed t))
        (frame quarter (Act.final (Input.states (timedInputs 1) shortDemoStart))) = true ∧
      completedAlong (timedInputs 1) shortDemoStart = 1 ∧ completedAlong (timedInputs 3) shortDemoStart = 3 ∧
      (eventsOf (journal (timedInputs 3) shortDemoStart)).take 3 = [.timed, .counted, .counted] ∧
      (((eventsOf (journal (timedInputs 3) shortDemoStart)).drop 3).head?.bind (Event.reported none)).isSome = true ∧
      ((eventsOf (journal (timedInputs 3) shortDemoStart)).drop 3).tail = [.counted] := by
    decide +kernel
  obtain ⟨_, once, accounts⟩ := timed_demo_metered
  obtain ⟨states, m, ran, _⟩ := Act.ok_of_ends went
  rw [ran] at came framed ⊢
  obtain ⟨reads, n, came, timed⟩ := Act.ok_of_ends came
  simp only [Bool.and_eq_true, decide_eq_true_eq] at timed
  obtain ⟨rfl, before⟩ := timed
  obtain ⟨_, t, framed, after⟩ := Act.ok_of_ends framed
  obtain ⟨metered, alone⟩ := once shortDemoStart (timedInputs 1) fresh (by decide) (by rw [one]; decide)
    states m quarter t ran framed (of_decide_eq_true after)
  refine ⟨metered, alone n came before, ?_⟩
  have accounted := accounts shortDemoStart (timedInputs 3) rfl (by rw [three]; decide)
  obtain ⟨r, whole⟩ : ∃ r, eventsOf (journal (timedInputs 3) shortDemoStart) =
      [.timed, .counted, .counted] ++ .finished r :: [.counted] := by
    rw [← List.take_append_drop 3 (eventsOf (journal (timedInputs 3) shortDemoStart)), early]
    cases rest : (eventsOf (journal (timedInputs 3) shortDemoStart)).drop 3 with
    | nil => simp [rest] at due
    | cons event last =>
      rw [rest] at due later
      cases event with
      | finished r => exact ⟨r, by rw [show last = [.counted] from later]⟩
      | _ => cases due
  obtain ⟨two, known, frames⟩ := accounted.frames _ r _ whole
  cases known
  refine ⟨r, whole, ?_, frames⟩
  rw [accounted.report, whole]
  rfl

end GameHost.Client
