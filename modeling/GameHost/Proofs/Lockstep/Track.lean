import GameHost.Proofs.Client.Core
import GameHost.Proofs.Replay.Recorder

/-!
A session over a recorder, and the same session over a player of the recording. Actions that see neither the
driver nor the last message do the same in both; the others are shown to keep the two beside each other.
-/
namespace GameHost
open GameHost.Message (Buffer)
open GameHost.Network (Driver)
open GameHost.Replay

/-- The client with that driver and that last message, and without files of a recorded session. -/
def Client.over (net : Driver) (incoming : Buffer) (c : Client) : Client :=
  { c with net := some net, incoming, playedFile := none, tapeFile := none }

def Host.over (net : Driver) (incoming : Buffer) (s : Session) : Session :=
  { s with world := s.world.over net incoming }

def Act.after (f : σ → σ) : EStateM.Result Fault σ α → EStateM.Result Fault σ α
  | .ok a s => .ok a (f s)
  | .error fault s => .error fault (f s)

namespace Lockstep
open GameHost.Client (ask change)

/-- An action that sees neither the driver nor the last message, and leaves the clock alone. -/
structure Blind {α : Type} (act : Act Session α) : Prop where
  apart : ∀ s net incoming, act (Host.over net incoming s) = Act.after (Host.over net incoming) (act s)
  clock : ∀ s a t, act s = .ok a t → t.world.clock = s.world.clock

namespace Blind

variable {α β : Type}

theorem pure (a : α) : Blind (pure a : Act Session α) :=
  ⟨fun _ _ _ => rfl, fun _ _ _ ran => by cases ran; rfl⟩

theorem throw (fault : Fault) : Blind (throw fault : Act Session α) :=
  ⟨fun _ _ _ => rfl, fun _ _ _ ran => by cases ran⟩

theorem bind {act : Act Session α} {next : α → Act Session β} (first : Blind act)
    (second : ∀ a, Blind (next a)) : Blind (act >>= next) := by
  constructor
  · intro s net incoming
    have apart := first.apart s net incoming
    cases ran : act s with
    | ok a m =>
      rw [ran] at apart
      rw [Act.bind_of_ok apart, Act.bind_of_ok ran, (second a).apart]
    | error fault m =>
      rw [ran] at apart
      rw [Act.bind_of_error apart, Act.bind_of_error ran]
      rfl
  · intro s b t ran
    obtain ⟨a, m, here, there⟩ := Act.bind_ok.1 ran
    rw [(second a).clock m b t there, first.clock s a m here]

theorem change {f : Client → Client} (apart : ∀ c net incoming, f (c.over net incoming) = (f c).over net incoming)
    (clock : ∀ c, (f c).clock = c.clock) : Blind (change f) := by
  constructor
  · intro s net incoming
    exact congrArg (fun world => EStateM.Result.ok PUnit.unit { s with world }) (apart s.world net incoming)
  · intro s _ t ran
    cases ran
    exact clock s.world

theorem onShell (f : Shell ClientCommand → Shell ClientCommand) : Blind (Host.onShell f : Act Session Unit) :=
  ⟨fun _ _ _ => rfl, fun _ _ _ ran => by cases ran; rfl⟩

theorem askShell (f : Shell ClientCommand → β × Shell ClientCommand) : Blind (Host.askShell f : Act Session β) :=
  ⟨fun _ _ _ => rfl, fun _ _ _ ran => by cases ran; rfl⟩

theorem print (text : Text) : Blind (Client.print text) := onShell _

theorem ask_bind {next : Client → Act Session β}
    (apart : ∀ c net incoming, next (Client.over net incoming c) = next c) (each : ∀ c, Blind (next c)) :
    Blind (ask >>= next) := by
  constructor
  · intro s net incoming
    change next (s.world.over net incoming) (s.over net incoming) = Act.after _ (next s.world s)
    rw [apart, (each s.world).apart]
  · intro s b t ran
    exact (each s.world).clock s b t ran

theorem get_bind {next : Session → Act Session β}
    (apart : ∀ s net incoming, next (Host.over net incoming s) = next s) (each : ∀ s, Blind (next s)) :
    Blind (get >>= next) := by
  constructor
  · intro s net incoming
    change next (s.over net incoming) (s.over net incoming) = Act.after _ (next s s)
    rw [apart, (each s).apart]
  · intro s b t ran
    exact (each s).clock s b t ran

theorem within {view : Client → σ} {replace : σ → Client → Client} {act : Act σ α}
    (sees : ∀ c net incoming, view (Client.over net incoming c) = view c)
    (apart : ∀ part c net incoming, replace part (Client.over net incoming c) = (replace part c).over net incoming)
    (clock : ∀ part c, (replace part c).clock = c.clock) : Blind (Client.within view replace act) := by
  constructor
  · intro s net incoming
    change Act.within _ _ act (s.over net incoming) = Act.after _ (Act.within _ _ act s)
    simp only [Act.within, Host.over, sees]
    cases act (view s.world) with
    | ok a part => simp only [Act.after, apart, Host.over]
    | error fault part => simp only [Act.after, apart, Host.over]
  · intro s a t ran
    obtain ⟨part, _, rfl⟩ := Act.within_ok.1 ran
    exact clock part s.world

theorem line_bind {next : Line → Act Session β} (each : ∀ line, Blind (next line)) :
    Blind (Client.line >>= next) :=
  ⟨fun s net incoming => (each s.shell.line).apart s net incoming, fun s b t ran => (each s.shell.line).clock s b t ran⟩

end Blind

structure Live where
  session : Session
  recorder : Recorder
  incoming : Buffer

def Live.whole (u : Live) : Session := u.session.over u.recorder.driver u.incoming

section

variable (left : Bytes → Prop) (count : Nat)

/-- All that waits in a live session can be recorded. What is `left` in the buffer by messages that do not
count is not recorded. -/
structure Steady (u : Live) : Prop where
  sound : u.recorder.Sound count
  room : u.incoming.capacity ≤ messageLimit
  inbox : ∀ delivery ∈ u.recorder.network.inbox,
    -1 ≤ delivery.kind ∧ (¬ 0 < delivery.kind → left delivery.data)

/-- A player and a last message beside those of a live session, before the entries recorded since. -/
structure Beside (later : List Replay.Entry) (u : Live) (p : Player) (incoming : Buffer) : Prop where
  follows : Follows p u.recorder later
  capacity : incoming.capacity = u.incoming.capacity
  content : incoming.written = u.incoming.written ∨ left u.incoming.written

/-- From `u` a live session went to `v` with a result. For every `i` for which `before` holds of the player and
its message, `again` goes there too, with the same result, and `behind` holds then. -/
structure Tracked {ι α : Type} (u : Live) (before : ι → Player → Buffer → Prop) (again : ι → Act Session α)
    (result : α) (v : Live) (behind : ι → Player → Buffer → Prop) : Prop where
  clock : v.session.world.clock = u.session.world.clock
  now : v.recorder.tape.clock = u.recorder.tape.clock
  steady : Steady left count v
  repeats : ∃ added, v.recorder.tape.data = u.recorder.tape.data ++ bytesOf added ∧
    ∀ i later p incoming, Beside left (added ++ later) u p incoming → before i p incoming →
      ∃ q last, again i (u.session.over (.player p) incoming) = .ok result (v.session.over (.player q) last) ∧
        Beside left later v q last ∧ behind i q last

/-- Whenever `act` ends well in a live session, `again` does the same in its replay. -/
def TracksFrom {ι α : Type} (u : Live) (before : ι → Player → Buffer → Prop) (act : Act Session α)
    (again : ι → Act Session α) (behind : α → Live → ι → Player → Buffer → Prop) : Prop :=
  Steady left count u → ∀ result t, act u.whole = .ok result t →
    ∃ v : Live, t = v.whole ∧ Tracked left count u before again result v (behind result v)

def anyhow (_ : Unit) (_ : Player) (_ : Buffer) : Prop := True

/-- An action that keeps a live session and its replay together, wherever they are. -/
def Tracks {α : Type} (act : Act Session α) : Prop :=
  ∀ u, TracksFrom left count u anyhow act (fun _ => act) (fun _ _ => anyhow)

end

variable {left : Bytes → Prop} {count : Nat} {ι κ α β : Type}

theorem Tracked.bind {u v w : Live} {before between behind : ι → Player → Buffer → Prop}
    {again : ι → Act Session α} {next : ι → α → Act Session β} {a : α} {b : β}
    (first : Tracked left count u before again a v between)
    (second : Tracked left count v between (fun i => next i a) b w behind) :
    Tracked left count u before (fun i => again i >>= next i) b w behind := by
  obtain ⟨added, data, repeats⟩ := first.repeats
  obtain ⟨more, rest, repeats'⟩ := second.repeats
  refine ⟨by rw [second.clock, first.clock], by rw [second.now, first.now], second.steady, added ++ more, ?_, ?_⟩
  · rw [rest, data, bytesOf_append, List.append_assoc]
  · intro i later p incoming beside holds
    rw [List.append_assoc] at beside
    obtain ⟨q, last, ran, there, between⟩ := repeats i _ p incoming beside holds
    obtain ⟨o, final, ran', there', behind⟩ := repeats' i later q last there between
    exact ⟨o, final, by rw [Act.bind_of_ok ran, ran'], there', behind⟩

theorem Tracked.recast {u v : Live} {before behind : ι → Player → Buffer → Prop} {again : ι → Act Session α}
    {before' behind' : κ → Player → Buffer → Prop} {again' : κ → Act Session α} {a : α}
    (tracked : Tracked left count u before again a v behind)
    (cast : ∀ k p incoming, before' k p incoming → ∃ i, before i p incoming ∧
      again' k (u.session.over (.player p) incoming) = again i (u.session.over (.player p) incoming) ∧
      ∀ q last, behind i q last → behind' k q last) : Tracked left count u before' again' a v behind' := by
  obtain ⟨added, data, repeats⟩ := tracked.repeats
  refine ⟨tracked.clock, tracked.now, tracked.steady, added, data, ?_⟩
  intro k later p incoming beside holds
  obtain ⟨i, there, same, onward⟩ := cast k p incoming holds
  obtain ⟨q, last, ran, after, held⟩ := repeats i later p incoming beside there
  exact ⟨q, last, by rw [same, ran], after, onward q last held⟩

namespace TracksFrom

variable {u : Live} {before : ι → Player → Buffer → Prop}

theorem bind {act : Act Session α} {again : ι → Act Session α} {next : α → Act Session β}
    {next' : ι → α → Act Session β} {B : α → Live → ι → Player → Buffer → Prop}
    {behind : β → Live → ι → Player → Buffer → Prop}
    (first : TracksFrom left count u before act again B)
    (second : ∀ a v, act u.whole = .ok a (Live.whole v) →
      TracksFrom left count v (B a v) (next a) (fun i => next' i a) behind) :
    TracksFrom left count u before (act >>= next) (fun i => again i >>= next' i) behind := by
  intro steady b t ran
  obtain ⟨a, m, here, there⟩ := Act.bind_ok.1 ran
  obtain ⟨v, rfl, tracked⟩ := first steady a m here
  obtain ⟨w, rfl, tracked'⟩ := second a v here tracked.steady b t there
  exact ⟨w, rfl, tracked.bind tracked'⟩

theorem recast {act act' : Act Session α} {again : ι → Act Session α} {again' : κ → Act Session α}
    {before' : κ → Player → Buffer → Prop} {behind : α → Live → ι → Player → Buffer → Prop}
    {behind' : α → Live → κ → Player → Buffer → Prop} (tracks : TracksFrom left count u before act again behind)
    (same : act' u.whole = act u.whole)
    (cast : ∀ k p incoming, before' k p incoming → ∃ i, before i p incoming ∧
      again' k (u.session.over (.player p) incoming) = again i (u.session.over (.player p) incoming) ∧
      ∀ a v q last, behind a v i q last → behind' a v k q last) :
    TracksFrom left count u before' act' again' behind' := by
  intro steady a t ran
  obtain ⟨v, rfl, tracked⟩ := tracks steady a t (by rw [← same, ran])
  refine ⟨v, rfl, tracked.recast ?_⟩
  intro k p incoming holds
  obtain ⟨i, there, same, onward⟩ := cast k p incoming holds
  exact ⟨i, there, same, onward a v⟩

theorem of_blind {act : Act Session α} (blind : Blind act)
    {behind : α → Live → ι → Player → Buffer → Prop}
    (keeps : ∀ a m i p incoming, act u.session = .ok a m → before i p incoming →
      behind a ⟨m, u.recorder, u.incoming⟩ i p incoming) :
    TracksFrom left count u before act (fun _ => act) behind := by
  intro steady a t ran
  rw [Live.whole, blind.apart] at ran
  cases here : act u.session with
  | error fault m => rw [here] at ran; cases ran
  | ok b m =>
    rw [here] at ran
    cases ran
    refine ⟨⟨m, u.recorder, u.incoming⟩, rfl, blind.clock _ _ _ here, rfl,
      ⟨steady.sound, steady.room, steady.inbox⟩, [], by simp, ?_⟩
    intro i later p incoming beside holds
    refine ⟨p, incoming, by rw [blind.apart, here]; rfl, ?_, keeps a m i p incoming here holds⟩
    exact ⟨beside.follows, beside.capacity, beside.content⟩

/-- Any action that keeps the two together, with what can be said from the live outcome and the replay's
never going back. -/
theorem of_tracks {act : Act Session α} (tracks : Tracks left count act)
    {behind : α → Live → ι → Player → Buffer → Prop}
    (keeps : ∀ a v i p q incoming last, act u.whole = .ok a (Live.whole v) → before i p incoming →
      q.left ≤ p.left → behind a v i q last) : TracksFrom left count u before act (fun _ => act) behind := by
  intro steady a t ran
  obtain ⟨v, rfl, tracked⟩ := tracks u steady a t ran
  obtain ⟨added, data, repeats⟩ := tracked.repeats
  refine ⟨v, rfl, tracked.clock, tracked.now, tracked.steady, added, data, ?_⟩
  intro i later p incoming beside holds
  obtain ⟨q, last, again, there, _⟩ := repeats () later p incoming beside trivial
  have onward := Player.left_le_of_stands beside.follows.stands there.follows.stands
  exact ⟨q, last, again, there, keeps a v i p q incoming last ran holds onward⟩

end TracksFrom

namespace Tracks

theorem of_blind {act : Act Session α} (blind : Blind act) : Tracks left count act :=
  fun _ => TracksFrom.of_blind blind fun _ _ _ _ _ _ _ => trivial

theorem bind {act : Act Session α} {next : α → Act Session β} (first : Tracks left count act)
    (second : ∀ a, Tracks left count (next a)) : Tracks left count (act >>= next) :=
  fun u => (first u).bind fun a v _ => second a v

theorem recast {act act' : Act Session α} (tracks : Tracks left count act)
    (same : ∀ s net incoming, act' (Host.over net incoming s) = act (Host.over net incoming s)) :
    Tracks left count act' :=
  fun u => (tracks u).recast (same _ _ _) fun _ _ _ _ => ⟨(), trivial, same _ _ _, fun _ _ _ _ _ => trivial⟩

theorem ask_bind {next : Client → Act Session β}
    (apart : ∀ c net incoming, next (Client.over net incoming c) = next c)
    (each : ∀ c, Tracks left count (next c)) : Tracks left count (ask >>= next) := by
  intro u
  have same (net : Driver) (incoming : Buffer) : (ask >>= next) (u.session.over net incoming) =
      next u.session.world (u.session.over net incoming) := by
    rw [← apart u.session.world net incoming]
    rfl
  exact (each u.session.world u).recast (same _ _) fun _ _ _ _ => ⟨(), trivial, same _ _, fun _ _ _ _ _ => trivial⟩

theorem get_bind {next : Session → Act Session β}
    (apart : ∀ s net incoming, next (Host.over net incoming s) = next s)
    (each : ∀ s, Tracks left count (next s)) : Tracks left count (get >>= next) := by
  intro u
  have same (net : Driver) (incoming : Buffer) : (get >>= next) (u.session.over net incoming) =
      next u.session (u.session.over net incoming) := by
    rw [← apart u.session net incoming]
    rfl
  exact (each u.session u).recast (same _ _) fun _ _ _ _ => ⟨(), trivial, same _ _, fun _ _ _ _ _ => trivial⟩

theorem of_line {next : Line → Act Session β} (each : ∀ line, Tracks left count (next line)) :
    Tracks left count (Client.line >>= next) :=
  get_bind (fun _ _ _ => rfl) fun s => each s.shell.line

end Tracks

end Lockstep

end GameHost
