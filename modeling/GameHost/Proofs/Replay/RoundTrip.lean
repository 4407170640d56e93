import GameHost.Proofs.Replay.Recorder
import Mathlib.Data.List.Forall2

/-!
Record and replay of a driver. What is asked of a recorder, in any order and with connections and messages
arriving at any time, is answered in the same way by a player of the recording.
-/
namespace GameHost.Replay
open GameHost.Message
open GameHost.Network (Socket Delivery Loopback Driver)

/-- What the host can ask of a driver. A message is received into a buffer of the host's own. -/
inductive Request where
  | frame (time : Double)
  | check
  | receive (socket : Socket) (message : Buffer)
  | send (socket : Socket) (data : Bytes)
  | sendUnreliable (socket : Socket) (data : Bytes)
  | canSend (socket : Socket)
  | close (socket : Socket)
  deriving DecidableEq, Repr

inductive Answer where
  | done
  | connection (socket : Option Socket)
  /-- The kind of a message, and what is in the buffer if the kind is positive. -/
  | message (kind : Int32) (content : Option Bytes)
  | result (code : Int32)
  | ready (now : Bool)
  deriving DecidableEq, Repr

namespace Request

def ask : Request → Act Driver Answer
  | .frame time => do
    modify (Driver.frame time)
    return .done
  | .check => do return .connection (← Driver.check)
  | .receive socket message => fun d =>
    match d.receive socket message with
    | .ok kind (d, message) => .ok (.message kind (if 0 < kind then some message.written else none)) d
    | .error fault (d, _) => .error fault d
  | .send socket data => do return .result (← Driver.send socket data)
  | .sendUnreliable socket data => fun d => .ok (.result (d.sendUnreliable socket data).1) (d.sendUnreliable socket data).2
  | .canSend socket => do return .ready (← Driver.canSend socket)
  | .close socket => do
    modify (Driver.close socket)
    return .done

/-- The same request; a message may be received into another buffer of the same capacity. -/
inductive Alike : Request → Request → Prop where
  | same (request : Request) : Alike request request
  | receive (socket : Socket) {one other : Buffer} (capacity : one.capacity = other.capacity) :
      Alike (.receive socket one) (.receive socket other)

/-- The host's times are numbers, and its buffers are no longer than a message may be. -/
def Proper : Request → Prop
  | .frame time => time.isNan = false
  | .receive _ message => message.capacity ≤ messageLimit
  | _ => True

instance : (request : Request) → Decidable request.Proper
  | .frame time => inferInstanceAs (Decidable (time.isNan = false))
  | .receive _ message => inferInstanceAs (Decidable (message.capacity ≤ messageLimit))
  | .check | .send .. | .sendUnreliable .. | .canSend _ | .close _ => isTrue trivial

end Request

inductive Event where
  | ask (request : Request)
  | happen (happening : Happening)
  deriving DecidableEq, Repr

namespace Event

def Proper : Event → Prop
  | .ask request => request.Proper
  | .happen happening => happening.Proper

instance : (event : Event) → Decidable event.Proper
  | .ask request => inferInstanceAs (Decidable request.Proper)
  | .happen happening => inferInstanceAs (Decidable happening.Proper)

def run : List Event → Act Driver (List Answer)
  | [] => return []
  | .ask request :: rest => do
    let answer ← request.ask
    let answers ← run rest
    return answer :: answers
  | .happen happening :: rest => do
    modify (Driver.onLoopback happening.change)
    run rest

def requests : List Event → List Request
  | [] => []
  | .ask request :: rest => request :: requests rest
  | .happen _ :: rest => requests rest

def arrivals : List Event → Nat
  | [] => 0
  | .ask _ :: rest => arrivals rest
  | .happen happening :: rest => arrivals rest + happening.arrivals

end Event

def askAll : List Request → Act Driver (List Answer)
  | [] => return []
  | request :: rest => do
    let answer ← request.ask
    let answers ← askAll rest
    return answer :: answers

section

variable {x : Recorder} {d : Driver} {answer : Answer} {count : Nat}

theorem frame_repeated {time : Double} (number : time.isNan = false) (sound : x.Sound count)
    (ran : (Request.frame time).ask x.driver = .ok answer d) :
    ∃ y : Recorder, d = y.driver ∧ y.Sound count ∧ Repeated x y (Request.frame time).ask answer := by
  cases ran
  refine ⟨⟨{ x.tape with clock := time }, x.network⟩, rfl, ⟨sound.waiting, sound.numbers⟩, [], ?_, ?_⟩
  · simp [Tape.data, Tape.inOrder]
  · intro p later follows
    exact ⟨{ p with clock := time }, rfl, number, rfl, follows.stands⟩

theorem receive_repeated (socket : Socket) {message other : Buffer} (capacity : message.capacity = other.capacity)
    (short : message.capacity ≤ messageLimit) (sound : x.Sound count)
    (ran : (Request.receive socket message).ask x.driver = .ok answer d) :
    ∃ y : Recorder, d = y.driver ∧ y.Sound count ∧ Repeated x y (Request.receive socket other).ask answer := by
  simp only [Request.ask] at ran
  cases received : Driver.receive socket x.driver message with
  | error fault rest => simp only [received] at ran; cases ran
  | ok kind rest =>
    obtain ⟨d, after⟩ := rest
    simp only [received] at ran
    cases ran
    obtain ⟨y, rfl, noted, how, network⟩ := Recorder.receive_recorded received
    have whole : after.written.length ≤ message.capacity := by
      rw [← how.capacity, Buffer.length_written]
      exact Nat.le_add_right _ _
    refine ⟨y, rfl, ?_, .of_entry noted ?_⟩
    · exact sound.of_network (by rw [network]; rfl) (fun s member => by rw [network] at member; exact member)
    · intro p later follows
      obtain ⟨q, again, there, _⟩ := follows.receive (b := other) (by omega) (by omega) noted
      refine ⟨q, ?_, there⟩
      simp only [Request.ask, again]
      by_cases positive : 0 < kind
      · simp [positive]
      · simp [positive]

theorem ask_repeated {request again : Request} (alike : request.Alike again) (proper : request.Proper)
    (sound : x.Sound count) (ran : request.ask x.driver = .ok answer d) :
    ∃ y : Recorder, d = y.driver ∧ y.Sound count ∧ Repeated x y again.ask answer := by
  cases alike with
  | receive socket capacity => exact receive_repeated socket capacity proper sound ran
  | same =>
    cases request with
    | frame time => exact frame_repeated proper sound ran
    | check =>
      obtain ⟨socket, _, checked, rest⟩ := Act.bind_ok.1 ran
      cases rest
      obtain ⟨y, rfl, onward, repeated⟩ := check_repeated sound checked
      exact ⟨y, rfl, onward.sound, repeated.bind (.pure y _)⟩
    | receive socket message => exact receive_repeated socket rfl proper sound ran
    | send socket data =>
      obtain ⟨result, _, sent, rest⟩ := Act.bind_ok.1 ran
      cases rest
      obtain ⟨y, rfl, onward, repeated⟩ := send_repeated socket data sound sent
      exact ⟨y, rfl, onward.sound, repeated.bind (.pure y _)⟩
    | sendUnreliable socket data =>
      cases ran
      exact ⟨⟨x.tape, x.network.send socket.session data⟩, rfl,
        sound.of_network rfl (fun s member => member), .unrecorded rfl fun p => rfl⟩
    | canSend socket =>
      obtain ⟨ready, _, asked, rest⟩ := Act.bind_ok.1 ran
      cases rest
      obtain ⟨y, rfl, onward, repeated⟩ := canSend_repeated socket sound asked
      exact ⟨y, rfl, onward.sound, repeated.bind (.pure y _)⟩
    | close socket =>
      cases ran
      exact ⟨⟨x.tape, x.network.close socket.session⟩, rfl,
        sound.of_network rfl (fun s member => member), .unrecorded rfl fun p => rfl⟩

end

/-- A whole run, by induction on its events. What happens to the loopback is not seen by a player, and shows
in the recording only through the answers. -/
theorem run_repeated {events : List Event} {again : List Request} {answers : List Answer} {x : Recorder}
    {d : Driver} (ran : Event.run events x.driver = .ok answers d)
    (alike : List.Forall₂ Request.Alike (Event.requests events) again)
    (proper : ∀ event ∈ events, event.Proper) (sound : x.Sound (Event.arrivals events)) :
    ∃ y : Recorder, d = y.driver ∧ Repeated x y (askAll again) answers := by
  induction events generalizing again answers x with
  | nil =>
    cases alike
    cases ran
    exact ⟨x, rfl, .pure x []⟩
  | cons event rest ih =>
    have properly : ∀ event ∈ rest, event.Proper := fun e member => proper e (List.mem_cons_of_mem _ member)
    have here : event.Proper := proper event List.mem_cons_self
    cases event with
    | ask request =>
      cases alike with
      | cons same others =>
        obtain ⟨answer, _, asked, more⟩ := Act.bind_ok.1 ran
        obtain ⟨answers, _, went, last⟩ := Act.bind_ok.1 more
        cases last
        obtain ⟨y, rfl, soundly, first⟩ := ask_repeated same here sound asked
        obtain ⟨z, rfl, second⟩ := ih went others properly soundly
        exact ⟨z, rfl, first.bind (second.bind (.pure z _))⟩
    | happen happening =>
      obtain ⟨y, rfl, again⟩ := ih (x := ⟨x.tape, happening.change x.network⟩) ran alike properly
        (sound.happen happening here)
      exact ⟨y, rfl, again.from_tape rfl⟩

/-- Whatever a host asked of a recorder over a loopback, and whatever arrived there meanwhile, if nothing
failed then a player opened on the recording answers the same requests in the same way, and is at its end
after the last of them. Where session numbers would be used up a connection without one could arrive, which
is recorded as no connection. -/
theorem replay_answers_alike {network : Loopback} {events : List Event} {again : List Request}
    {answers : List Answer} {tape : Tape} {inner : Driver}
    (ran : Event.run events (.recorder Tape.empty (.loopback network)) = .ok answers (.recorder tape inner))
    (alike : List.Forall₂ Request.Alike (Event.requests events) again)
    (proper : ∀ event ∈ events, event.Proper)
    (waiting : ∀ socket ∈ network.arriving, Recordable socket)
    (numbers : ∀ k < Event.arrivals events, network.next + Int64.ofNat k ≠ 0) :
    ∃ p q, Player.ofBytes tape.data = .ok p ∧ askAll again (.player p) = .ok answers (.player q) ∧
      q.next = none ∧ q.left = 0 := by
  obtain ⟨y, same, entries, data, follow⟩ := run_repeated (x := ⟨Tape.empty, network⟩) ran alike proper
    ⟨waiting, numbers⟩
  cases same
  obtain ⟨p, opened, clock, stands⟩ := Player.ofBytes_stands entries
  obtain ⟨q, asked, there⟩ := follow p [] ⟨show Double.zero.isNan = false by decide, clock, by simpa using stands⟩
  refine ⟨p, q, ?_, asked, there.stands.1, ?_⟩
  · rw [data]
    exact opened
  · rw [Player.left_eq, there.stands.2]
    rfl

def shortRun : List Event :=
  [.happen (.arrive "a"), .ask (.frame Double.one), .ask .check, .happen (.deliver ⟨1, 1, [7]⟩),
   .ask (.receive ⟨1, "a"⟩ (Buffer.strict 16)), .happen (.setReady false), .ask (.canSend ⟨1, "a"⟩),
   .ask (.send ⟨1, "a"⟩ [4]), .ask (.sendUnreliable ⟨1, "a"⟩ [2]), .ask (.close ⟨1, "a"⟩)]

theorem short_run_replays : ∃ answers tape inner p q,
    Event.run shortRun (.recorder Tape.empty (.loopback Loopback.empty)) = .ok answers (.recorder tape inner) ∧
      Player.ofBytes tape.data = .ok p ∧
      askAll (Event.requests shortRun) (.player p) = .ok answers (.player q) ∧ q.next = none ∧ q.left = 0 := by
  have ran : Event.run shortRun (.recorder Tape.empty (.loopback Loopback.empty)) = .ok _ (.recorder _ _) := rfl
  obtain ⟨p, q, opened, asked, ended⟩ := replay_answers_alike ran
    (List.forall₂_same.2 fun request _ => Request.Alike.same request) (by decide) (by simp [Loopback.empty]) (by decide)
  exact ⟨_, _, _, p, q, ran, opened, asked, ended⟩

end GameHost.Replay
