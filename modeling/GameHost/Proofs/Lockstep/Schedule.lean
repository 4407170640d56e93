import GameHost.Proofs.Lockstep.Frame
import GameHost.Proofs.Turn
import Mathlib.Data.List.Forall2

/-!
Record and replay of a whole session. Whatever the player does and whatever arrives from the network, a session
over a player of the recording goes through the states that the recorded session went through.
-/
namespace GameHost.Lockstep
open GameHost.Client (ask change)
open GameHost.Message (Buffer)
open GameHost.Network (Driver Loopback Delivery)
open GameHost.Replay

/-- Sessions alike in all but the driver and the last message; the message is the same as well, unless the
first session was left with one that does not count. -/
structure Alike (left : Bytes → Prop) (live replay : Session) : Prop where
  shell : replay.shell = live.shell
  world : { replay.world with net := live.world.net, incoming := live.world.incoming } = live.world
  message : replay.world.incoming.written = live.world.incoming.written ∨ left live.world.incoming.written

variable {left : Bytes → Prop} {count : Nat}

theorem Beside.alike {later : List Replay.Entry} {u : Live} {p : Player} {incoming : Buffer}
    (beside : Beside left later u p incoming) : Alike left u.whole (u.session.over (.player p) incoming) :=
  ⟨rfl, rfl, beside.content⟩

theorem shutDown_tracks : Tracks left count Client.shutDown := by
  have finished : Tracks left count (do
      Client.disconnect
      Client.writeConfig
      Client.finishTape) := by
    refine .bind .disconnect fun _ => .bind (.of_blind .writeConfig) fun _ => ?_
    exact (Tracks.of_blind (.pure ())).recast fun _ _ _ => rfl
  unfold Client.shutDown
  refine .ask_bind (fun _ _ _ => rfl) fun c => ?_
  dsimp only
  split
  · exact .bind (.of_blind .stopRecording) fun _ => finished
  · exact finished

/-- From `u` a live session went to `v`, and a replay goes there with it, doing `again`. -/
def Retold (left : Bytes → Prop) (u v : Live) (again : Player → Buffer → Player → Buffer → Prop) : Prop :=
  ∃ added, v.recorder.tape.data = u.recorder.tape.data ++ bytesOf added ∧
    ∀ later p incoming, Beside left (added ++ later) u p incoming →
      ∃ q last, again p incoming q last ∧ Beside left later v q last

theorem turn_retold (turn : Turn) {u : Live} {t : Session} (steady : Steady left count u)
    (ran : turn.act u.whole = .ok () t) (number : t.world.clock.isNan = false) :
    ∃ v : Live, t = v.whole ∧ Steady left count v ∧ Retold left u v fun p incoming q last =>
      turn.act (u.session.over (.player p) incoming) = .ok () (v.session.over (.player q) last) := by
  have of_tracks (tracks : Tracks left count turn.act) : ∃ v : Live, t = v.whole ∧ Steady left count v ∧
      Retold left u v fun p incoming q last =>
        turn.act (u.session.over (.player p) incoming) = .ok () (v.session.over (.player q) last) := by
    obtain ⟨v, rfl, tracked⟩ := tracks u steady () t ran
    obtain ⟨added, data, repeats⟩ := tracked.repeats
    refine ⟨v, rfl, tracked.steady, added, data, ?_⟩
    intro later p incoming beside
    obtain ⟨q, last, again, there, _⟩ := repeats () later p incoming beside trivial
    exact ⟨q, last, again, there⟩
  cases turn with
  | enter text => exact of_tracks (.of_blind (.onShell _))
  | run text source => exact of_tracks (.runLine text source)
  | shutDown => exact of_tracks shutDown_tracks
  | frame seconds =>
    -- the clocks of recorder and session go on together, before anything is asked of the driver
    let time := u.session.world.clock.add seconds
    let now : Live := ⟨{ u.session with world := { u.session.world with clock := time } },
      ⟨{ u.recorder.tape with clock := time }, u.recorder.network⟩, u.incoming⟩
    have steadily : Steady left count now := ⟨⟨steady.sound.waiting, steady.sound.numbers⟩, steady.room, steady.inbox⟩
    obtain ⟨v, rfl, tracked⟩ := frameAtTime_tracks seconds now steadily () t
      (by rw [← ran]; exact (frame_over seconds u.session u.recorder.driver u.incoming).symm)
    obtain ⟨added, data, repeats⟩ := tracked.repeats
    have timed : time.isNan = false := by
      rw [← show v.session.world.clock = time from tracked.clock]
      exact number
    refine ⟨v, rfl, tracked.steady, added, ?_, ?_⟩
    · rw [data]
      rfl
    · intro later p incoming beside
      obtain ⟨q, last, again, there, _⟩ := repeats () later { p with clock := time } incoming
        ⟨⟨timed, rfl, beside.follows.stands⟩, beside.capacity, beside.content⟩ trivial
      exact ⟨q, last, again, there⟩

theorem steady_happen (happening : Happening) {u : Live} (proper : (Input.happen happening).Proper)
    (uncounted : ∀ delivery, happening = .deliver delivery → ¬ 0 < delivery.kind → left delivery.data)
    (steady : Steady left (count + happening.arrivals) u) :
    Steady left count ⟨u.session, ⟨u.recorder.tape, happening.change u.recorder.network⟩, u.incoming⟩ := by
  cases happening with
  | arrive address => exact ⟨steady.sound.happen (.arrive address) proper, steady.room, steady.inbox⟩
  | setReady ready => exact ⟨steady.sound.happen (.setReady ready) trivial, steady.room, steady.inbox⟩
  | deliver delivery =>
    refine ⟨steady.sound.happen (.deliver delivery) trivial, steady.room, ?_⟩
    intro waiting member
    rcases List.mem_append.1 member with before | now
    · exact steady.inbox waiting before
    · rw [List.mem_singleton.1 now]
      exact ⟨proper, uncounted delivery rfl⟩

/-- A whole schedule, by induction on its inputs. What arrives changes the loopback only, and a replay does
without it. -/
theorem states_retold {inputs : List Input} {u : Live} {states : List Session} {t : Session}
    (ran : Input.states inputs u.whole = .ok states t) (steady : Steady left (Input.arrivals inputs) u)
    (proper : ∀ input ∈ inputs, input.Proper) (uncounted : ∀ bytes, Input.Uncounted inputs bytes → left bytes)
    (numbers : ∀ s ∈ states, s.world.clock.isNan = false) :
    ∃ w : Live, t = w.whole ∧ Retold left u w fun p incoming q last => ∃ replayed,
      Turn.states (Input.turns inputs) (u.session.over (.player p) incoming) =
        .ok replayed (w.session.over (.player q) last) ∧ List.Forall₂ (Alike left) states replayed := by
  induction inputs generalizing u states with
  | nil =>
    cases ran
    refine ⟨u, rfl, [], by simp, ?_⟩
    exact fun later p incoming beside => ⟨p, incoming, ⟨[], rfl, .nil⟩, beside⟩
  | cons input rest ih =>
    have properly : ∀ input ∈ rest, input.Proper := fun input member => proper input (List.mem_cons_of_mem _ member)
    have rests : ∀ bytes, Input.Uncounted rest bytes → left bytes := by
      rintro bytes ⟨delivery, member, other, rfl⟩
      exact uncounted _ ⟨delivery, List.mem_cons_of_mem _ member, other, rfl⟩
    have here : input.Proper := proper input List.mem_cons_self
    cases input with
    | host turn =>
      obtain ⟨_, m, did, more⟩ := Act.bind_ok.1 ran
      obtain ⟨_, _, got, more⟩ := Act.bind_ok.1 more
      cases got
      obtain ⟨later, _, went, last⟩ := Act.bind_ok.1 more
      cases last
      obtain ⟨v, rfl, steadily, added, data, repeats⟩ := turn_retold turn steady did
        (numbers _ List.mem_cons_self)
      obtain ⟨w, rfl, more, rest_data, repeats'⟩ := ih went steadily properly rests
        fun s member => numbers s (List.mem_cons_of_mem _ member)
      refine ⟨w, rfl, added ++ more, by rw [rest_data, data, bytesOf_append, List.append_assoc], ?_⟩
      intro later p incoming beside
      rw [List.append_assoc] at beside
      obtain ⟨q, last, again, there⟩ := repeats _ p incoming beside
      obtain ⟨o, final, ⟨replayed, onward, alike⟩, there'⟩ := repeats' later q last there
      refine ⟨o, final, ⟨v.session.over (.player q) last :: replayed, ?_, .cons there.alike alike⟩, there'⟩
      have retold := Act.bind_of_ok again (f := fun _ => do
        let now ← get
        let later ← Turn.states (Input.turns rest)
        return now :: later)
      apply retold.trans
      exact (Act.bind_of_ok onward).trans rfl
    | happen happening =>
      let now : Live := ⟨u.session, ⟨u.recorder.tape, happening.change u.recorder.network⟩, u.incoming⟩
      have steadily : Steady left (Input.arrivals rest) now := by
        refine steady_happen happening here ?_ steady
        rintro delivery rfl other
        exact uncounted _ ⟨delivery, List.mem_cons_self, other, rfl⟩
      obtain ⟨w, rfl, added, data, repeats⟩ := ih (u := now) ran steadily properly rests numbers
      refine ⟨w, rfl, added, data, ?_⟩
      intro later p incoming beside
      exact repeats later p incoming ⟨beside.follows.of_tape rfl, beside.capacity, beside.content⟩

/-- A session over a recorder around a fresh loopback, with any player's input and any arrivals between turns. If
nothing fails, a player opens on the recording, and the same session over that player goes through the same
states, turn by turn, and is at the end of the recording after the last of them. Only the driver differs, and
the last message where the recorded session was left with one that does not count. -/
theorem replay_states_alike {s : Session} {inputs : List Input} {states : List Session} {t : Session}
    (ran : Input.states inputs (s.over Recorder.fresh.driver s.world.incoming) = .ok states t)
    (room : s.world.incoming.capacity ≤ messageLimit) (proper : ∀ input ∈ inputs, input.Proper)
    (arrivals : Input.arrivals inputs < 2 ^ 64) (numbers : ∀ state ∈ states, state.world.clock.isNan = false) :
    ∃ tape inner p q replayed u, t.world.net = some (.recorder tape inner) ∧ Player.ofBytes tape.data = .ok p ∧
      Turn.states (Input.turns inputs) (s.over (.player p) s.world.incoming) = .ok replayed u ∧
      List.Forall₂ (Alike (Input.Uncounted inputs)) states replayed ∧
      u.world.net = some (.player q) ∧ q.next = none := by
  have steady : Steady (Input.Uncounted inputs) (Input.arrivals inputs) ⟨s, Recorder.fresh, s.world.incoming⟩ := by
    refine ⟨Recorder.sound_fresh arrivals, room, ?_⟩
    intro delivery member
    cases member
  obtain ⟨w, rfl, entries, data, repeats⟩ := states_retold ran steady proper (fun _ left => left) numbers
  obtain ⟨p, opened, clock, stands⟩ := Player.ofBytes_stands entries
  obtain ⟨q, last, ⟨replayed, again, alike⟩, there⟩ := repeats [] p s.world.incoming
    ⟨⟨show Double.zero.isNan = false by decide, clock, by simpa using stands⟩, rfl, .inl rfl⟩
  refine ⟨w.recorder.tape, .loopback w.recorder.network, p, q, replayed, _, rfl, ?_, again, alike, rfl, ?_⟩
  · rw [data]
    exact opened
  · exact there.follows.stands.1

/-- A connection arrives and is taken up, a text and a message that does not count arrive from it, and a
command of the player goes to it. -/
def shortSchedule : List Input :=
  [.happen (.arrive "a"), .host (.enter "echo hi\n"), .host (.frame Double.one),
   .happen (.deliver ⟨1, 1, [8, 104, 105, 0]⟩), .happen (.deliver ⟨1, 0, [7]⟩), .host (.enter "cmd say hi\n"),
   .host (.frame Double.one), .host .shutDown]

def shortStart : Session := Client.newSession (SearchPath.ofBase "/") (Disk.empty []) Console.captured

theorem short_schedule_replays : ∃ states t tape inner p q replayed u,
    Input.states shortSchedule (shortStart.over Recorder.fresh.driver shortStart.world.incoming) = .ok states t ∧
      t.world.net = some (.recorder tape inner) ∧ Player.ofBytes tape.data = .ok p ∧
      Turn.states (Input.turns shortSchedule) (shortStart.over (.player p) shortStart.world.incoming) =
        .ok replayed u ∧
      List.Forall₂ (Alike (Input.Uncounted shortSchedule)) states replayed ∧
      u.world.net = some (.player q) ∧ q.next = none := by
  have fine : Act.ends (fun states _ => states.all fun s => !s.world.clock.isNan)
      (Input.states shortSchedule (shortStart.over Recorder.fresh.driver shortStart.world.incoming)) = true := by
    decide +kernel
  obtain ⟨states, t, ran, finite⟩ := Act.ok_of_ends fine
  have numbers : ∀ s ∈ states, s.world.clock.isNan = false := by simpa using finite
  obtain ⟨tape, inner, p, q, replayed, u, retold⟩ :=
    replay_states_alike ran (by decide +kernel) (by decide) (by decide) numbers
  exact ⟨states, t, tape, inner, p, q, replayed, u, ran, retold⟩

end GameHost.Lockstep
