import GameHost.Network.Driver
import GameHost.Proofs.Replay.Standing

/-!
A recorder over a loopback, and a player of what it writes down. Each request of the recorder adds one
entry; a player that stands before that entry gives the same result.
-/
namespace GameHost

namespace Double

theorem equal_self {x : Double} (number : x.isNan = false) : x.equal x = true := by
  simp only [isNan, beq_eq_false_iff_ne] at number
  simp only [equal, beq_iff_eq]
  cases value : x.value with
  | nan => exact absurd value number
  | infinite negative => simp [Binary.Value.compare]
  | finite negative significand exponent => simp [Binary.Value.compare]

end Double

namespace Replay
open GameHost.Message
open GameHost.Network (Socket Delivery Loopback Driver)

/-- A loopback with everything recorded that passes. -/
structure Recorder where
  tape : Tape
  network : Loopback
  deriving DecidableEq, Repr

namespace Recorder

def driver (x : Recorder) : Driver := .recorder x.tape (.loopback x.network)

def fresh : Recorder := ⟨Tape.empty, Loopback.empty⟩

/-- One entry more has been written down, at the same time. -/
structure Notes (x : Recorder) (e : Entry) (y : Recorder) : Prop where
  data : y.tape.data = x.tape.data ++ bytesOf [e]
  clock : y.tape.clock = x.tape.clock

variable {x : Recorder} {d : Driver}

theorem check_recorded {socket : Option Socket} (ran : Driver.check x.driver = .ok socket d) :
    ∃ y : Recorder, d = y.driver ∧ x.Notes (.connection x.tape.clock socket) y ∧
      x.network.accept = (socket, y.network) := by
  simp only [driver, Driver.check] at ran
  cases ran
  exact ⟨⟨x.tape.noteConnection _, _⟩, rfl, ⟨data_noteConnection _ _, clock_noteConnection _ _⟩, rfl⟩

theorem send_recorded {socket : Socket} {data : Bytes} {result : Int32}
    (ran : Driver.send socket data x.driver = .ok result d) :
    ∃ y : Recorder, d = y.driver ∧ x.Notes (.sent x.tape.clock socket.session result) y ∧
      y.network.next = x.network.next ∧ y.network.arriving = x.network.arriving ∧
      y.network.inbox = x.network.inbox := by
  simp only [driver, Driver.send] at ran
  cases ready : x.network.ready with
  | true =>
    simp only [ready, if_pos] at ran
    cases ran
    exact ⟨⟨x.tape.noteSent socket.session 1, _⟩, rfl, ⟨data_noteSent _ _ _, rfl⟩, rfl, rfl, rfl⟩
  | false =>
    simp only [ready, Bool.false_eq_true, if_false] at ran
    cases ran
    exact ⟨⟨x.tape.noteSent socket.session 0, _⟩, rfl, ⟨data_noteSent _ _ _, rfl⟩, rfl, rfl, rfl⟩

theorem canSend_recorded {socket : Socket} {ready : Bool}
    (ran : Driver.canSend socket x.driver = .ok ready d) :
    ∃ y : Recorder, d = y.driver ∧ x.Notes (.ready x.tape.clock socket.session ready) y ∧
      y.network = x.network := by
  simp only [driver, Driver.canSend] at ran
  cases ran
  exact ⟨⟨x.tape.noteReady socket.session _, _⟩, rfl, ⟨data_noteReady _ _ _, rfl⟩, rfl⟩

/-- What a loopback does to a buffer when it is asked for a message: nothing if there is none, else the
message replaces what was there. -/
inductive Received (x : Recorder) (socket : Socket) (before : Buffer) : Int32 → Buffer → Prop where
  | none : Received x socket before Network.noMessage before
  | some {delivery : Delivery} (waiting : delivery ∈ x.network.inbox)
      (fits : delivery.data.length ≤ before.capacity) :
      Received x socket before delivery.kind (before.holding delivery.data)

theorem Received.capacity {socket : Socket} {before after : Buffer} {kind : Int32}
    (received : Received x socket before kind after) : after.capacity = before.capacity := by
  cases received with
  | none => rfl
  | some waiting fits => exact Buffer.capacity_holding fits

theorem receive_recorded {socket : Socket} {before after : Buffer} {kind : Int32}
    (ran : Driver.receive socket x.driver before = .ok kind (d, after)) :
    ∃ y : Recorder, d = y.driver ∧
      x.Notes (.received x.tape.clock socket.session kind after.written) y ∧
      Received x socket before kind after ∧ y.network = (x.network.take socket.session).2 := by
  simp only [driver, Driver.receive, Loopback.take] at ran
  cases found : x.network.inbox.find? (Loopback.isFor socket.session) with
  | none =>
    simp only [found] at ran
    cases ran
    exact ⟨⟨x.tape.noteReceived socket.session Network.noMessage before, _⟩, rfl,
      ⟨data_noteReceived _ _ _ _, rfl⟩, .none, rfl⟩
  | some delivery =>
    simp only [found] at ran
    cases filled : Buffer.fill delivery.data before with
    | error fault b => simp only [filled] at ran; cases ran
    | ok _ b =>
      simp only [filled] at ran
      cases ran
      obtain ⟨fits, rfl⟩ := Buffer.fill_ok.1 filled
      exact ⟨⟨x.tape.noteReceived socket.session delivery.kind _, _⟩, rfl,
        ⟨data_noteReceived _ _ _ _, rfl⟩, .some (List.mem_of_find?_eq_some found) fits, rfl⟩

end Recorder

/-- What the program around the host does to the loopback. -/
inductive Happening where
  | arrive (address : Text)
  | deliver (delivery : Delivery)
  | setReady (ready : Bool)
  deriving DecidableEq, Repr

namespace Happening

def change : Happening → Loopback → Loopback
  | .arrive address, l => (l.connect address).2
  | .deliver delivery, l => l.deliver delivery
  | .setReady ready, l => { l with ready }

def Proper : Happening → Prop
  | .arrive address => Kept address
  | _ => True

instance : (happening : Happening) → Decidable happening.Proper
  | .arrive address => inferInstanceAs (Decidable (Kept address))
  | .deliver _ | .setReady _ => isTrue trivial

def arrivals : Happening → Nat
  | .arrive _ => 1
  | _ => 0

end Happening

namespace Recorder

/-- What has arrived can be recorded, and so can so many more connections. -/
structure Sound (x : Recorder) (count : Nat) : Prop where
  waiting : ∀ socket ∈ x.network.arriving, Recordable socket
  numbers : ∀ k < count, x.network.next + Int64.ofNat k ≠ 0

variable {x y : Recorder} {count : Nat}

theorem Sound.of_network (sound : x.Sound count) (next : y.network.next = x.network.next)
    (arriving : ∀ socket ∈ y.network.arriving, socket ∈ x.network.arriving) : y.Sound count :=
  ⟨fun socket member => sound.waiting socket (arriving socket member), by rw [next]; exact sound.numbers⟩

theorem Sound.connect {address : Text} (sound : x.Sound (count + 1)) (kept : Kept address) :
    Sound ⟨x.tape, (x.network.connect address).2⟩ count := by
  constructor
  · intro socket member
    rcases List.mem_append.1 member with before | now
    · exact sound.waiting socket before
    · rw [List.mem_singleton.1 now]
      exact ⟨by simpa using sound.numbers 0 (by omega), kept⟩
  · intro k less
    have later := sound.numbers (k + 1) (by omega)
    change x.network.next + 1 + Int64.ofNat k ≠ 0
    rw [Int64.add_assoc, Int64.add_comm 1, ← show Int64.ofNat (k + 1) = Int64.ofNat k + 1 from by simp]
    exact later

theorem Sound.happen (happening : Happening) (proper : happening.Proper)
    (sound : x.Sound (count + happening.arrivals)) : Sound ⟨x.tape, happening.change x.network⟩ count := by
  cases happening with
  | arrive address => exact sound.connect proper
  | deliver delivery => exact sound.of_network rfl fun socket member => member
  | setReady ready => exact sound.of_network rfl fun socket member => member

theorem sound_fresh (possible : count < 2 ^ 64) : fresh.Sound count := by
  refine ⟨by simp [fresh, Loopback.empty], ?_⟩
  intro k less zero
  have wrapped : (Int64.ofNat (k + 1)).toBitVec = 0 := by
    rw [show Int64.ofNat (k + 1) = 1 + Int64.ofNat k by rw [Int64.add_comm]; simp]
    exact congrArg Int64.toBitVec zero
  have := congrArg BitVec.toNat wrapped
  simp at this
  omega

theorem Sound.accept {socket : Option Socket} (sound : x.Sound count)
    (accepted : x.network.accept = (socket, y.network)) :
    y.Sound count ∧ ∀ s, socket = some s → Recordable s := by
  have network : y.network = { x.network with arriving := x.network.arriving.tail } :=
    (congrArg Prod.snd accepted).symm
  have head : socket = x.network.arriving.head? := (congrArg Prod.fst accepted).symm
  constructor
  · exact sound.of_network (by rw [network])
      (fun s member => List.mem_of_mem_tail (by rw [network] at member; exact member))
  · intro s here
    exact sound.waiting s (List.mem_of_mem_head? (by rw [← head, here]; rfl))

end Recorder

/-- A player that stands where a recorder stood, before the entries written down since then. The time must be
a number, for else the player could not tell that it is the time of an entry. -/
structure Follows (p : Player) (x : Recorder) (entries : List Entry) : Prop where
  number : x.tape.clock.isNan = false
  clock : p.clock = x.tape.clock
  stands : p.Stands entries

namespace Follows

variable {p : Player} {x y : Recorder} {later : List Entry}

theorem now (follows : Follows p x later) : p.clock.equal p.clock = true :=
  Double.equal_self (follows.clock ▸ follows.number)

theorem onward {q : Player} {e : Entry} (follows : Follows p x (e :: later)) (noted : x.Notes e y)
    (clock : q.clock = p.clock) (stands : q.Stands later) : Follows q y later :=
  ⟨by rw [noted.clock]; exact follows.number, by rw [clock, follows.clock, noted.clock], stands⟩

theorem of_tape (follows : Follows p x later) (same : y.tape.clock = x.tape.clock) : Follows p y later :=
  ⟨by rw [same]; exact follows.number, by rw [follows.clock, same], follows.stands⟩

theorem check {socket : Option Socket} (follows : Follows p x (.connection x.tape.clock socket :: later))
    (recordable : ∀ s, socket = some s → Recordable s)
    (noted : x.Notes (.connection x.tape.clock socket) y) :
    ∃ q, Driver.check (.player p) = .ok socket (.player q) ∧ Follows q y later := by
  have stands := follows.stands
  rw [← follows.clock] at stands
  obtain ⟨q, ran, clock, after⟩ := Player.check_stands follows.now recordable stands
  exact ⟨q, by simp only [Driver.check, ran], follows.onward noted clock after⟩

theorem send {socket : Socket} {data : Bytes} {result : Int32}
    (follows : Follows p x (.sent x.tape.clock socket.session result :: later))
    (noted : x.Notes (.sent x.tape.clock socket.session result) y) :
    ∃ q, Driver.send socket data (.player p) = .ok result (.player q) ∧ Follows q y later := by
  have stands := follows.stands
  rw [← follows.clock] at stands
  obtain ⟨q, ran, clock, after⟩ := Player.send_stands socket follows.now stands
  exact ⟨q, by simp only [Driver.send, ran], follows.onward noted clock after⟩

theorem canSend {socket : Socket} {ready : Bool}
    (follows : Follows p x (.ready x.tape.clock socket.session ready :: later))
    (noted : x.Notes (.ready x.tape.clock socket.session ready) y) :
    ∃ q, Driver.canSend socket (.player p) = .ok ready (.player q) ∧ Follows q y later := by
  have stands := follows.stands
  rw [← follows.clock] at stands
  obtain ⟨q, ran, clock, after⟩ := Player.canSend_stands socket follows.now stands
  exact ⟨q, by simp only [Driver.canSend, ran], follows.onward noted clock after⟩

theorem receive {socket : Socket} {kind : Int32} {message : Bytes} {b : Buffer}
    (follows : Follows p x (.received x.tape.clock socket.session kind message :: later))
    (short : message.length ≤ messageLimit)
    (fits : message.length ≤ b.capacity)
    (noted : x.Notes (.received x.tape.clock socket.session kind message) y) :
    ∃ q, Driver.receive socket (.player p) b =
        .ok kind (.player q, if 0 < kind then b.holding message else b) ∧ Follows q y later ∧
      q.left < p.left := by
  have before := Player.left_of_stands follows.stands
  have stands := follows.stands
  rw [← follows.clock] at stands
  obtain ⟨q, ran, clock, after⟩ := Player.receive_stands socket follows.now short fits stands
  have small := Player.left_of_stands_le after
  have some := Entry.length_received x.tape.clock socket.session kind message
  exact ⟨q, by simp only [Driver.receive, ran], follows.onward noted clock after, by omega⟩

end Follows

/-- From `x` the recorder went to `y` with a result; a player of what it wrote down on the way gives the same
result to `again`. -/
def Repeated {α : Type} (x y : Recorder) (again : Act Driver α) (result : α) : Prop :=
  ∃ entries, y.tape.data = x.tape.data ++ bytesOf entries ∧
    ∀ p later, Follows p x (entries ++ later) →
      ∃ q, again (.player p) = .ok result (.player q) ∧ Follows q y later

namespace Repeated

variable {α β : Type} {x y z : Recorder} {again : Act Driver α} {a : α}

theorem pure (x : Recorder) (a : α) : Repeated x x (pure a) a :=
  ⟨[], by simp, fun p _ follows => ⟨p, rfl, follows⟩⟩

theorem bind {next : α → Act Driver β} {b : β} (first : Repeated x y again a)
    (second : Repeated y z (next a) b) : Repeated x z (again >>= next) b := by
  obtain ⟨before, data, follow⟩ := first
  obtain ⟨after, more, follow'⟩ := second
  refine ⟨before ++ after, by rw [more, data, bytesOf_append, List.append_assoc], ?_⟩
  intro p later follows
  rw [List.append_assoc] at follows
  obtain ⟨q, ran, there⟩ := follow p _ follows
  obtain ⟨r, ran', there'⟩ := follow' q later there
  exact ⟨r, by rw [Act.bind_of_ok ran, ran'], there'⟩

theorem from_tape (repeated : Repeated x z again a) (same : x.tape = y.tape) : Repeated y z again a := by
  obtain ⟨entries, data, follow⟩ := repeated
  exact ⟨entries, by rw [data, same], fun p later follows => follow p later (follows.of_tape (by rw [same]))⟩

theorem unrecorded (same : y.tape = x.tape) (stays : ∀ p, again (.player p) = .ok a (.player p)) :
    Repeated x y again a :=
  ⟨[], by simp [same], fun p _ follows => ⟨p, stays p, follows.of_tape (by rw [same])⟩⟩

theorem of_entry {e : Entry} (noted : x.Notes e y)
    (step : ∀ p later, Follows p x (e :: later) →
      ∃ q, again (.player p) = .ok a (.player q) ∧ Follows q y later) : Repeated x y again a :=
  ⟨[e], noted.data, fun p later follows => step p later (by simpa using follows)⟩

end Repeated

/-- A request that can be recorded leads to a recorder of which the same can be said, at the same time and with
no more messages waiting. -/
structure Recorder.Onward (x : Recorder) (count : Nat) (y : Recorder) : Prop where
  sound : y.Sound count
  clock : y.tape.clock = x.tape.clock
  inbox : ∀ delivery ∈ y.network.inbox, delivery ∈ x.network.inbox

section

variable {x : Recorder} {d : Driver} {count : Nat}

theorem check_repeated {socket : Option Socket} (sound : x.Sound count) (ran : Driver.check x.driver = .ok socket d) :
    ∃ y : Recorder, d = y.driver ∧ x.Onward count y ∧ Repeated x y Driver.check socket := by
  obtain ⟨y, rfl, noted, accepted⟩ := Recorder.check_recorded ran
  obtain ⟨soundly, recordable⟩ := sound.accept accepted
  have inbox : y.network.inbox = x.network.inbox := congrArg (·.2.inbox) accepted.symm
  refine ⟨y, rfl, ⟨soundly, noted.clock, fun delivery member => inbox ▸ member⟩, .of_entry noted ?_⟩
  exact fun p later follows => follows.check recordable noted

theorem send_repeated (socket : Socket) (data : Bytes) {result : Int32} (sound : x.Sound count)
    (ran : Driver.send socket data x.driver = .ok result d) :
    ∃ y : Recorder, d = y.driver ∧ x.Onward count y ∧ Repeated x y (Driver.send socket data) result := by
  obtain ⟨y, rfl, noted, next, arriving, inbox⟩ := Recorder.send_recorded ran
  refine ⟨y, rfl, ⟨?_, noted.clock, fun delivery member => inbox ▸ member⟩, .of_entry noted ?_⟩
  · exact sound.of_network next (fun s member => arriving ▸ member)
  · exact fun p later follows => follows.send noted

theorem canSend_repeated (socket : Socket) {ready : Bool} (sound : x.Sound count)
    (ran : Driver.canSend socket x.driver = .ok ready d) :
    ∃ y : Recorder, d = y.driver ∧ x.Onward count y ∧ Repeated x y (Driver.canSend socket) ready := by
  obtain ⟨y, rfl, noted, network⟩ := Recorder.canSend_recorded ran
  refine ⟨y, rfl, ⟨?_, noted.clock, fun delivery member => network ▸ member⟩, .of_entry noted ?_⟩
  · exact sound.of_network (by rw [network]) (fun s member => network ▸ member)
  · exact fun p later follows => follows.canSend noted

end

end Replay

end GameHost
