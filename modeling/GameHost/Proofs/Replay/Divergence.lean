import GameHost.Proofs.Replay.Decoding

/-!
Playing a recording when the host may ask for something else than was recorded. Every answer is the one that
the next entry holds. A request that does not fit the pending entry is refused, and then nothing has moved.
-/
namespace GameHost.Replay
open GameHost.Message
open GameHost.Network (Socket Driver)

/-- What a request asks of a recording: an operation, and the session if the entry must be of that one. -/
structure Asked where
  operation : Operation
  session : Option Int64

/-- Times, unreliable messages and closed connections are not recorded. -/
def Request.asked? : Request → Option Asked
  | .check => some ⟨.connect, none⟩
  | .receive socket _ => some ⟨.receive, some socket.session⟩
  | .send socket _ => some ⟨.send, some socket.session⟩
  | .canSend socket => some ⟨.ready, some socket.session⟩
  | .frame _ | .sendUnreliable .. | .close _ => none

/-- The buffer of the request has room for the answer. -/
def Request.HasRoom : Request → Answer → Prop
  | .receive _ buffer, .message _ (some data) => data.length ≤ buffer.capacity
  | _, _ => True

namespace Asked

def Fits (asked : Asked) (clock : Double) (record : Record) : Prop :=
  record.time.equal clock = true ∧ record.code = asked.operation.code ∧
    ∀ session ∈ asked.session, session = record.session

instance (asked : Asked) (clock : Double) (record : Record) : Decidable (asked.Fits clock record) :=
  inferInstanceAs (Decidable (_ ∧ _ ∧ ∀ session ∈ asked.session, session = record.session))

/-- Nothing is pending, or something that does not fit. -/
def Differs (asked : Asked) (clock : Double) (pending : Option Record) : Prop :=
  ∀ record ∈ pending, ¬asked.Fits clock record

/-- What is reported when the pending entry, if there is one, does not fit. -/
def refusal (asked : Asked) (clock : Double) : Option Record → Fault
  | some record => .diverged ⟨clock, asked.operation.code, asked.session.getD 0⟩ record
  | none => .recordingEnded

end Asked

namespace Player

/-- The player stands before what the bytes spell: it has read the header in front of them, if there is one. -/
def At (bytes : Bytes) (p : Player) : Prop := p.next = header? bytes ∧ p.rest = bytes.drop Record.size

variable {p q : Player} {asked : Asked} {record : Record} {fault : Fault}

theorem expect_of_fits (pending : p.next = some record) (fits : asked.Fits p.clock record) :
    expect asked.operation asked.session p = .ok record p := by
  obtain ⟨now, same, whose⟩ := fits
  have session : asked.session.getD record.session = record.session := by
    cases given : asked.session with
    | none => rfl
    | some session => exact whose session given
  simp [expect, pending, now, same, session]

theorem expect_of_differs (differs : asked.Differs p.clock p.next) :
    expect asked.operation asked.session p = .error (asked.refusal p.clock p.next) p := by
  cases pending : p.next with
  | none => simp [expect, pending, Asked.refusal]
  | some record =>
    have other : (record.time.equal p.clock && record.code == asked.operation.code
        && (asked.session.getD record.session == record.session)) = false := by
      refine Bool.eq_false_iff.2 fun same => differs record pending ?_
      simp only [Bool.and_eq_true, beq_iff_eq] at same
      refine ⟨same.1.1, same.1.2, fun session given => ?_⟩
      simpa [Option.mem_def.1 given] using same.2
    simp [expect, pending, other, Asked.refusal]

theorem advance_none (nothing : header? p.rest = none) :
    advance p = .ok () { p.skip Record.size with next := none } := by
  unfold advance
  rw [take_eq]
  by_cases there : Record.size ≤ p.rest.length
  · simp [there, decode?_eq, header?_take, nothing]
  · simp [there]

theorem advance_some (found : header? p.rest = some record) :
    advance p = if record.known then .ok () { p.skip Record.size with next := some record }
      else .error (.unknownOperation record.code) { p.skip Record.size with next := some record } := by
  have there : Record.size ≤ p.rest.length := by
    by_contra short
    rw [header?_none (by omega)] at found
    cases found
  unfold advance
  rw [take_eq]
  simp [there, decode?_eq, header?_take, found]

theorem advance_ok (ran : advance p = .ok () q) : Continues p.rest ∧ q.At p.rest ∧ q.clock = p.clock := by
  cases pending : header? p.rest with
  | none =>
    rw [advance_none pending] at ran
    cases ran
    refine ⟨fun record found => ?_, ⟨pending.symm, rest_skip _ p⟩, rfl⟩
    rw [pending] at found
    cases found
  | some record =>
    rw [advance_some pending] at ran
    split at ran
    · rename_i known
      cases ran
      refine ⟨fun other found => ?_, ⟨pending.symm, rest_skip _ p⟩, rfl⟩
      rw [pending] at found
      cases found
      exact known
    · cases ran

theorem advance_error (stopped : advance p = .error fault q) :
    ¬Continues p.rest ∧ fault.isDivergence = false := by
  cases pending : header? p.rest with
  | none => rw [advance_none pending] at stopped; cases stopped
  | some record =>
    rw [advance_some pending] at stopped
    split at stopped
    · cases stopped
    · rename_i unknown
      cases stopped
      exact ⟨fun continues => unknown (continues record pending), rfl⟩

end Player

/-- A request was answered with what was expected, and the player went on; or it stopped for another reason
than a divergence, and the answer could not be given. -/
structure Serves (clock : Double) (expected : Option (Answer × Bytes)) (room : Answer → Prop)
    (outcome : EStateM.Result Fault Driver Answer) : Prop where
  ok : ∀ {answer d}, outcome = .ok answer d →
    ∃ q after, d = .player q ∧ expected = some (answer, after) ∧ Continues after ∧ q.At after ∧ q.clock = clock
  error : ∀ {fault d}, outcome = .error fault d → fault.isDivergence = false ∧
    ∀ answer after, expected = some (answer, after) → room answer → ¬Continues after

/-- An outcome of a player as one of a driver. -/
def played {α : Type} (f : α → Answer) : EStateM.Result Fault Player α → EStateM.Result Fault Driver Answer
  | .ok a q => .ok (f a) (.player q)
  | .error fault q => .error fault (.player q)

section

variable {p : Player} {record : Record} {room : Answer → Prop} {α β : Type}

theorem decoder_map (decoder : Decoder α) (f : α → Answer) (bytes : Bytes) :
    (decoder >>= fun a => (pure (f a) : Decoder Answer)) bytes = (decoder bytes).map fun x => (f x.1, x.2) := by
  change (decoder bytes).bind _ = _
  cases decoder bytes <;> rfl

theorem Reads.serves {act : Act Player β} {decoder : Decoder β} (reads : Reads act decoder) (g : β → α)
    (f : α → Answer) :
    Serves p.clock ((decoder p.rest).map fun x => (f (g x.1), x.2)) room
      (played f ((act >>= fun b => Player.advance >>= fun _ => Pure.pure (g b)) p)) where
  ok {answer d} played := by
    cases ran : (act >>= fun b => Player.advance >>= fun _ => Pure.pure (g b)) p with
    | error fault q => rw [ran] at played; cases played
    | ok a q =>
      rw [ran] at played
      cases played
      obtain ⟨b, m, read, more⟩ := Act.bind_ok.1 ran
      obtain ⟨_, _, onward, last⟩ := Act.bind_ok.1 more
      cases last
      obtain ⟨decoded, clock⟩ := reads.ok read
      obtain ⟨continues, there, still⟩ := Player.advance_ok onward
      exact ⟨q, m.rest, rfl, by rw [decoded]; rfl, continues, there, still.trans clock⟩
  error {fault d} played := by
    cases ran : (act >>= fun b => Player.advance >>= fun _ => Pure.pure (g b)) p with
    | ok a q => rw [ran] at played; cases played
    | error other q =>
      rw [ran] at played
      cases played
      rcases Act.bind_error.1 ran with stopped | ⟨b, m, read, stopped⟩
      · obtain ⟨nothing, plain⟩ := reads.error stopped
        refine ⟨plain, fun answer after expected => ?_⟩
        rw [nothing] at expected
        cases expected
      · rcases Act.bind_error.1 stopped with stopped | ⟨_, _, _, last⟩
        · obtain ⟨ends, plain⟩ := Player.advance_error stopped
          refine ⟨plain, fun answer after expected _ => ?_⟩
          rw [(reads.ok read).1] at expected
          cases expected
          exact ends
        · cases last

/-- What a request that fits the pending entry comes to. -/
def Request.Fares (request : Request) (operation : Operation) (record : Record) (p : Player) : Prop :=
  Serves p.clock (operation.answer record.session p.rest) (request.HasRoom) (request.ask (.player p))

theorem played_of_act {act : Act Driver α} {f : α → Answer} {outcome : EStateM.Result Fault Player α}
    (ok : ∀ a q, outcome = .ok a q → act (.player p) = .ok a (.player q))
    (error : ∀ fault q, outcome = .error fault q → act (.player p) = .error fault (.player q)) :
    (act >>= fun a => (pure (f a) : Act Driver Answer)) (.player p) = played f outcome := by
  cases outcome with
  | ok a q => rw [Act.bind_of_ok (ok a q rfl)]; rfl
  | error fault q => rw [Act.bind_of_error (error fault q rfl)]; rfl

theorem check_played (p : Player) : Request.check.ask (.player p) = played .connection (Player.check p) :=
  played_of_act (fun _ _ ran => by simp only [Driver.check, ran]) (fun _ _ ran => by simp only [Driver.check, ran])

theorem send_played (socket : Socket) (data : Bytes) (p : Player) :
    (Request.send socket data).ask (.player p) = played .result (Player.send socket p) :=
  played_of_act (fun _ _ ran => by simp only [Driver.send, ran]) (fun _ _ ran => by simp only [Driver.send, ran])

theorem canSend_played (socket : Socket) (p : Player) :
    (Request.canSend socket).ask (.player p) = played .ready (Player.canSend socket p) :=
  played_of_act (fun _ _ ran => by simp only [Driver.canSend, ran])
    (fun _ _ ran => by simp only [Driver.canSend, ran])

theorem check_fares (asked : Player.expect .connect none p = .ok record p) :
    Request.check.Fares .connect record p := by
  rw [Request.Fares, check_played, Player.check, Act.bind_of_ok asked, Operation.answer]
  by_cases live : record.session == 0
  · rw [if_pos live, if_pos live]
    exact (Reads.pure none).serves id Answer.connection
  · rw [if_neg live, if_neg live, decoder_map]
    exact (Player.read_reads addressSize).serves
      (fun address => some (Socket.mk record.session (Player.addressOf address))) Answer.connection

theorem send_fares (socket : Socket) (data : Bytes)
    (asked : Player.expect .send (some socket.session) p = .ok record p) :
    (Request.send socket data).Fares .send record p := by
  rw [Request.Fares, send_played, Player.send, Act.bind_of_ok asked, Operation.answer, decoder_map]
  exact Player.readInt32_reads.serves id Answer.result

theorem canSend_fares (socket : Socket) (asked : Player.expect .ready (some socket.session) p = .ok record p) :
    (Request.canSend socket).Fares .ready record p := by
  rw [Request.Fares, canSend_played, Player.canSend, Act.bind_of_ok asked, Operation.answer, decoder_map]
  exact Player.readInt32_reads.serves (· != 0) Answer.ready

end

section

variable {p q : Player} {record : Record} {socket : Socket} {b c : Buffer} {kind : Int32} {content : Option Bytes}
  {fault : Fault} {bytes after : Bytes}

theorem message_kind (decoded : message bytes = some ((kind, content), after)) :
    content.isSome = decide (0 < kind) := by
  obtain ⟨_, _, _, decoded⟩ := Decoder.bind_some.1 decoded
  split at decoded
  · rename_i positive
    obtain ⟨_, _, _, decoded⟩ := Decoder.bind_some.1 decoded
    split at decoded
    · cases decoded
    · obtain ⟨_, _, _, decoded⟩ := Decoder.bind_some.1 decoded
      cases decoded
      simp [positive]
  · rename_i none
    cases decoded
    simp [none]

theorem written_delivered (decoded : message bytes = some ((kind, content), after))
    (filled : c = content.elim b fun data => b.holding data) :
    (if 0 < kind then some c.written else none) = content := by
  have positive := message_kind decoded
  rw [filled]
  cases content with
  | none => rw [if_neg (by simpa using positive.symm)]
  | some data => rw [if_pos (by simpa using positive.symm), Option.elim_some, Buffer.written_holding]

theorem fill_error (stopped : Buffer.fill bytes b = .error fault c) :
    fault.isDivergence = false ∧ ¬bytes.length ≤ b.capacity := by
  refine ⟨?_, fun fits => ?_⟩
  · rcases Act.bind_error.1 (show (Buffer.makeRoom (Packed.ofBytes bytes).size >>= fun _ =>
      modify (Buffer.put (Packed.ofBytes bytes))) b.clear = .error fault c from stopped) with
      full | ⟨_, _, _, last⟩
    · unfold Buffer.makeRoom at full
      split at full
      · cases full
      split at full
      · cases full
        rfl
      split at full
      · cases full
        rfl
      · cases full
    · cases last
  · rw [Buffer.fill_ok.2 ⟨fits, rfl⟩] at stopped
    cases stopped

theorem deliver_ok (ran : deliver content b = .ok () c) : c = content.elim b fun data => b.holding data := by
  cases content with
  | none => cases ran; rfl
  | some data => exact (Buffer.fill_ok.1 ran).2

theorem deliver_error (stopped : deliver content b = .error fault c) :
    fault.isDivergence = false ∧ ¬∀ data ∈ content, data.length ≤ b.capacity := by
  cases content with
  | none => cases stopped
  | some data =>
    obtain ⟨plain, long⟩ := fill_error stopped
    exact ⟨plain, fun fits => long (fits data rfl)⟩

theorem receive_ok (asked : Player.expect .receive (some socket.session) p = .ok record p)
    (ran : Player.receive socket (p, b) = .ok kind (q, c)) :
    ∃ content after, message p.rest = some ((kind, content), after) ∧ Continues after ∧ q.At after ∧
      q.clock = p.clock ∧ c = content.elim b fun data => b.holding data := by
  rw [Player.receive_eq, Act.bind_of_ok (Act.first_of_ok asked)] at ran
  obtain ⟨arrived, _, first, more⟩ := Act.bind_ok.1 ran
  obtain ⟨m, read, rfl⟩ := Act.within_ok.1 first
  obtain ⟨_, _, second, more⟩ := Act.bind_ok.1 more
  obtain ⟨d, delivered, rfl⟩ := Act.within_ok.1 second
  obtain ⟨_, _, third, last⟩ := Act.bind_ok.1 more
  obtain ⟨n, onward, rfl⟩ := Act.within_ok.1 third
  cases last
  obtain ⟨decoded, clock⟩ := Player.content_reads.ok read
  obtain ⟨continues, there, still⟩ := Player.advance_ok onward
  exact ⟨arrived.2, m.rest, decoded, continues, there, still.trans clock, deliver_ok delivered⟩

theorem receive_error (asked : Player.expect .receive (some socket.session) p = .ok record p) {s : Player × Buffer}
    (stopped : Player.receive socket (p, b) = .error fault s) :
    fault.isDivergence = false ∧ ∀ arrived after, message p.rest = some (arrived, after) →
      (∀ data ∈ arrived.2, data.length ≤ b.capacity) → ¬Continues after := by
  rw [Player.receive_eq, Act.bind_of_ok (Act.first_of_ok asked)] at stopped
  rcases Act.bind_error.1 stopped with first | ⟨arrived, _, first, stopped⟩
  · obtain ⟨m, reading, -⟩ := Act.within_error.1 first
    obtain ⟨nothing, plain⟩ := Player.content_reads.error reading
    refine ⟨plain, fun arrived after decoded => ?_⟩
    rw [nothing] at decoded
    cases decoded
  obtain ⟨m, read, rfl⟩ := Act.within_ok.1 first
  obtain ⟨decoded, -⟩ := Player.content_reads.ok read
  rcases Act.bind_error.1 stopped with second | ⟨_, _, second, stopped⟩
  · obtain ⟨d, filling, -⟩ := Act.within_error.1 second
    obtain ⟨plain, long⟩ := deliver_error filling
    refine ⟨plain, fun other after found fits => ?_⟩
    rw [decoded] at found
    cases found
    exact absurd fits long
  obtain ⟨d, delivered, rfl⟩ := Act.within_ok.1 second
  rcases Act.bind_error.1 stopped with third | ⟨_, _, _, last⟩
  · obtain ⟨n, going, -⟩ := Act.within_error.1 third
    obtain ⟨ends, plain⟩ := Player.advance_error going
    refine ⟨plain, fun other after found _ => ?_⟩
    rw [decoded] at found
    cases found
    exact ends
  · cases last

theorem receive_fares (socket : Socket) (buffer : Buffer)
    (asked : Player.expect .receive (some socket.session) p = .ok record p) :
    (Request.receive socket buffer).Fares .receive record p := by
  constructor
  · intro answer d ran
    simp only [Request.ask, Driver.receive] at ran
    cases received : Player.receive socket (p, buffer) with
    | error fault s => rw [received] at ran; cases ran
    | ok kind s =>
      rw [received] at ran
      cases ran
      obtain ⟨content, after, decoded, continues, there, clock, filled⟩ := receive_ok asked received
      refine ⟨_, after, rfl, ?_, continues, there, clock⟩
      rw [Operation.answer, decoder_map, decoded, Option.map_some, written_delivered decoded filled]
  · intro fault d stopped
    simp only [Request.ask, Driver.receive] at stopped
    cases received : Player.receive socket (p, buffer) with
    | ok kind s => rw [received] at stopped; cases stopped
    | error fault s =>
      rw [received] at stopped
      cases stopped
      obtain ⟨plain, stuck⟩ := receive_error asked received
      refine ⟨plain, fun answer after expected fits => ?_⟩
      rw [Operation.answer, decoder_map] at expected
      obtain ⟨arrived, decoded, same⟩ := Option.map_eq_some_iff.1 expected
      cases same
      refine stuck arrived.1 arrived.2 decoded fun data given => ?_
      rw [Option.mem_def.1 given] at fits
      exact fits

theorem Request.fares {request : Request} {asked : Asked} (named : request.asked? = some asked)
    (pending : p.next = some record) (fits : asked.Fits p.clock record) :
    request.Fares asked.operation record p := by
  have expected := Player.expect_of_fits pending fits
  cases request with
  | frame | sendUnreliable | close => cases named
  | check =>
    cases named
    exact check_fares expected
  | receive socket buffer =>
    cases named
    exact receive_fares socket buffer expected
  | send socket data =>
    cases named
    exact send_fares socket data expected
  | canSend socket =>
    cases named
    exact canSend_fares socket expected

/-- The request is answered; a message that is received is then in the buffer of the host, which is as it was
if there is none. -/
def Request.ServedWith (request : Request) (answer : Answer) (p q : Player) : Prop :=
  request.ask (.player p) = .ok answer (.player q) ∧
    ∀ socket buffer, request = .receive socket buffer → ∃ kind content, answer = .message kind content ∧
      Driver.receive socket (.player p) buffer =
        .ok kind (.player q, content.elim buffer fun data => buffer.holding data)

theorem Request.served {request : Request} {asked : Asked} {answer : Answer} (named : request.asked? = some asked)
    (pending : p.next = some record) (fits : asked.Fits p.clock record)
    (answered : request.ask (.player p) = .ok answer (.player q)) : request.ServedWith answer p q := by
  refine ⟨answered, ?_⟩
  rintro socket buffer rfl
  cases named
  simp only [Request.ask, Driver.receive] at answered ⊢
  cases received : Player.receive socket (p, buffer) with
  | error fault s => rw [received] at answered; cases answered
  | ok kind s =>
    rw [received] at answered
    cases answered
    obtain ⟨content, after, decoded, -, -, -, filled⟩ := receive_ok (Player.expect_of_fits pending fits) received
    exact ⟨kind, content, by rw [written_delivered decoded filled], by rw [← filled]⟩

/-- The request is refused with a fault, and neither the player nor a buffer of the host has changed. -/
def Request.RefusedWith (request : Request) (fault : Fault) (p : Player) : Prop :=
  request.ask (.player p) = .error fault (.player p) ∧
    ∀ socket buffer, request = .receive socket buffer →
      Driver.receive socket (.player p) buffer = .error fault (.player p, buffer)

theorem Request.refused {request : Request} {asked : Asked} (named : request.asked? = some asked)
    (differs : asked.Differs p.clock p.next) : request.RefusedWith (asked.refusal p.clock p.next) p := by
  have expected := Player.expect_of_differs differs
  cases request with
  | frame | sendUnreliable | close => cases named
  | check =>
    cases named
    have stopped : Player.check p = .error _ p := Act.bind_of_error expected
    refine ⟨?_, fun _ _ same => by cases same⟩
    rw [check_played, stopped]
    rfl
  | receive socket buffer =>
    cases named
    have stopped : Player.receive socket (p, buffer) = .error _ (p, buffer) :=
      Act.bind_of_error (Act.first_of_error expected)
    have kept : Driver.receive socket (.player p) buffer =
        .error (Asked.refusal ⟨.receive, some socket.session⟩ p.clock p.next) (.player p, buffer) := by
      simp only [Driver.receive, stopped]
    refine ⟨by simp only [Request.ask, kept], fun _ _ same => ?_⟩
    cases same
    exact kept
  | send socket data =>
    cases named
    have stopped : Player.send socket p = .error _ p := Act.bind_of_error expected
    refine ⟨?_, fun _ _ same => by cases same⟩
    rw [send_played, stopped]
    rfl
  | canSend socket =>
    cases named
    have stopped : Player.canSend socket p = .error _ p := Act.bind_of_error expected
    refine ⟨?_, fun _ _ same => by cases same⟩
    rw [canSend_played, stopped]
    rfl

end

/-- Ask, and go on from there whether or not it was answered. -/
def attempt (request : Request) (d : Driver) : Except Fault Answer × Driver :=
  match request.ask d with
  | .ok answer d => (.ok answer, d)
  | .error fault d => (.error fault, d)

/-- The request was answered, or something else had been recorded. -/
def answeredOrDiverged : Except Fault Answer → Bool
  | .ok _ => true
  | .error fault => fault.isDivergence

/-- Requests and what each of them came to, a failure not stopping the next. -/
def attempts : List Request → Driver → List (Request × Except Fault Answer)
  | [], _ => []
  | request :: rest, d => (request, (attempt request d).1) :: attempts rest (attempt request d).2

def standing : List Request → Driver → Driver
  | [], d => d
  | request :: rest, d => standing rest (attempt request d).2

/-- What requests come to is what the bytes say: from the front of the bytes an entry for each answer, and for
each failure a pending entry that the request did not fit. The bytes after the last of these entries remain. -/
inductive Told : Double → Bytes → List (Request × Except Fault Answer) → Bytes → Prop where
  | ended {clock bytes} : Told clock bytes [] bytes
  | frame {clock time bytes rest last} (more : Told time bytes rest last) :
      Told clock bytes ((.frame time, .ok .done) :: rest) last
  | unreliable {clock bytes rest last socket data} (more : Told clock bytes rest last) :
      Told clock bytes ((.sendUnreliable socket data, .ok (.result 1)) :: rest) last
  | close {clock bytes rest last socket} (more : Told clock bytes rest last) :
      Told clock bytes ((.close socket, .ok .done) :: rest) last
  | served {clock bytes request asked record answer after rest last} (named : Request.asked? request = some asked)
      (entry : recorded bytes = some ((record, answer), after)) (fits : asked.Fits clock record)
      (more : Told clock after rest last) : Told clock bytes ((request, .ok answer) :: rest) last
  | refused {clock bytes request asked rest last} (named : Request.asked? request = some asked)
      (differs : asked.Differs clock (header? bytes)) (more : Told clock bytes rest last) :
      Told clock bytes ((request, .error (asked.refusal clock (header? bytes))) :: rest) last

section

variable {p : Player} {bytes : Bytes} {request : Request} {asked : Asked} {record : Record}

theorem recorded_eq {operation : Operation} (found : header? bytes = some record)
    (code : record.code = operation.code) :
    recorded bytes =
      (operation.answer record.session (bytes.drop Record.size)).map fun x => ((record, x.1), x.2) := by
  change (Record.decode? bytes).bind _ = _
  rw [decode?_eq, found, Option.map_some, Option.bind_some]
  change (record.answer (bytes.drop Record.size)).bind _ = _
  rw [Record.answer, code, Operation.ofCode?_code]
  change (operation.answer record.session (bytes.drop Record.size)).bind _ = _
  cases operation.answer record.session (bytes.drop Record.size) <;> rfl

theorem ofBytes_at (opened : Player.ofBytes bytes = .ok p) : p.At bytes ∧ p.clock = Double.zero := by
  unfold Player.ofBytes Player.start at opened
  split at opened
  · rename_i q ran
    cases opened
    obtain ⟨-, there, clock⟩ := Player.advance_ok ran
    refine ⟨?_, clock⟩
    simpa [Player.rest, Intake.rest, Intake.fresh] using there
  · cases opened

/-- One request: it moves on by what it came to, and whatever is told of the later ones goes on from there. -/
theorem attempt_told (there : p.At bytes)
    (plain : answeredOrDiverged (attempt request (.player p)).1 = true) :
    ∃ q after, (attempt request (.player p)).2 = .player q ∧ q.At after ∧
      ∀ rest last, Told q.clock after rest last →
        Told p.clock bytes ((request, (attempt request (.player p)).1) :: rest) last := by
  cases named : request.asked? with
  | none =>
    cases request with
    | check | receive | send | canSend => cases named
    | frame time => exact ⟨{ p with clock := time }, bytes, rfl, there, fun _ _ => .frame⟩
    | sendUnreliable socket data => exact ⟨p, bytes, rfl, there, fun _ _ => .unreliable⟩
    | close socket => exact ⟨p, bytes, rfl, there, fun _ _ => .close⟩
  | some asked =>
    by_cases differs : asked.Differs p.clock p.next
    · have refused := (Request.refused named differs).1
      simp only [attempt, refused]
      rw [there.1] at differs ⊢
      exact ⟨p, bytes, rfl, there, fun _ _ => .refused named differs⟩
    · obtain ⟨record, pending, fits⟩ : ∃ record, p.next = some record ∧ asked.Fits p.clock record := by
        simpa [Asked.Differs] using differs
      have fares := Request.fares named pending fits
      cases came : request.ask (.player p) with
      | error fault d =>
        simp only [attempt, came, answeredOrDiverged, (fares.error came).1] at plain
        cases plain
      | ok answer d =>
        obtain ⟨q, after, rfl, expected, -, stands, clock⟩ := fares.ok came
        simp only [attempt, came]
        refine ⟨q, after, rfl, stands, fun rest last more => ?_⟩
        rw [clock] at more
        refine .served named ?_ fits more
        rw [recorded_eq (there.1.symm.trans pending) fits.2.1, ← there.2, expected]
        rfl

theorem attempts_told (requests : List Request) (there : p.At bytes)
    (plain : ∀ tried ∈ attempts requests (.player p), answeredOrDiverged tried.2 = true) :
    ∃ q last, standing requests (.player p) = .player q ∧ q.At last ∧
      Told p.clock bytes (attempts requests (.player p)) last := by
  induction requests generalizing p bytes with
  | nil => exact ⟨p, bytes, rfl, there, .ended⟩
  | cons request rest ih =>
    obtain ⟨q, after, onward, stands, goes⟩ := attempt_told there (plain _ List.mem_cons_self)
    simp only [attempts, standing, onward] at plain ⊢
    obtain ⟨r, last, ends, standing, told⟩ := ih stands fun tried member =>
      plain tried (List.mem_cons_of_mem _ member)
    exact ⟨r, last, ends, standing, goes _ _ told⟩

theorem served_of_recorded {answer : Answer} {after : Bytes} (there : p.At bytes) (named : request.asked? = some asked)
    (entry : recorded bytes = some ((record, answer), after)) (fits : asked.Fits p.clock record)
    (room : request.HasRoom answer) (continues : Continues after) :
    ∃ q, request.ServedWith answer p q ∧ q.At after ∧ q.clock = p.clock := by
  have found : header? bytes = some record := by
    obtain ⟨first, rest, decoded, more⟩ := Decoder.bind_some.1 entry
    obtain ⟨_, _, _, last⟩ := Decoder.bind_some.1 more
    cases last
    rw [header?, decoded, Option.map_some]
  have pending := there.1.trans found
  have fares := Request.fares named pending fits
  rw [recorded_eq found fits.2.1, ← there.2] at entry
  obtain ⟨⟨_, _⟩, expected, same⟩ := Option.map_eq_some_iff.1 entry
  cases same
  cases came : request.ask (.player p) with
  | error fault d => exact absurd continues ((fares.error came).2 _ _ expected room)
  | ok other d =>
    obtain ⟨q, rest, rfl, again, -, stands, clock⟩ := fares.ok came
    rw [expected] at again
    cases again
    exact ⟨q, Request.served named pending fits came, stands, clock⟩

/-- A player never makes anything up. Whatever is asked of it, as long as it fails at most because something
else was asked than was recorded, every answer is that of the next entry of the bytes, which fits the request,
and the request that fits the entry after it can then be served. A request that does not fit the pending entry is
refused wherever the player stands, and nothing has moved. -/
theorem playback_as_recorded {bytes : Bytes} {p : Player} (opened : Player.ofBytes bytes = .ok p)
    (requests : List Request)
    (plain : ∀ tried ∈ attempts requests (.player p), answeredOrDiverged tried.2 = true) :
    (∃ q last, standing requests (.player p) = .player q ∧ q.At last ∧
      Told Double.zero bytes (attempts requests (.player p)) last ∧
      ∀ request asked record answer after, Request.asked? request = some asked →
        recorded last = some ((record, answer), after) → asked.Fits q.clock record → request.HasRoom answer →
        Continues after → ∃ r, request.ServedWith answer q r ∧ r.At after ∧ r.clock = q.clock) ∧
    ∀ (q : Player) request asked, Request.asked? request = some asked → asked.Differs q.clock q.next →
      request.RefusedWith (asked.refusal q.clock q.next) q := by
  obtain ⟨there, clock⟩ := ofBytes_at opened
  obtain ⟨q, last, ends, stands, told⟩ := attempts_told requests there plain
  rw [clock] at told
  refine ⟨⟨q, last, ends, stands, told, ?_⟩, fun _ _ _ => Request.refused⟩
  intro request asked record answer after named entry fits room continues
  exact served_of_recorded stands named entry fits room continues

end

/-- A connection and a message. -/
def shortRecording : Bytes :=
  bytesOf [.connection Double.zero (some ⟨1, "a"⟩), .received Double.zero 1 1 [7]]

/-- What was recorded is asked for in its order, but with other requests in between. -/
def strayRequests : List Request :=
  [.canSend ⟨1, "a"⟩, .check, .receive ⟨2, "a"⟩ (Buffer.strict 8), .receive ⟨1, "a"⟩ (Buffer.strict 8), .check]

def strayOutcomes : List (Except Fault Answer) :=
  [.error (.diverged ⟨Double.zero, 4, 1⟩ ⟨Double.zero, 1, 1⟩), .ok (.connection (some ⟨1, "a"⟩)),
    .error (.diverged ⟨Double.zero, 2, 2⟩ ⟨Double.zero, 2, 1⟩), .ok (.message 1 (some [7])), .error .recordingEnded]

theorem stray_requests_refused : ∃ p q last,
    Player.ofBytes shortRecording = .ok p ∧ (attempts strayRequests (.player p)).map Prod.snd = strayOutcomes ∧
      standing strayRequests (.player p) = .player q ∧ q.At last ∧
      Told Double.zero shortRecording (attempts strayRequests (.player p)) last := by
  have outcomes : (Player.ofBytes shortRecording).map
      (fun p => (attempts strayRequests (.player p)).map Prod.snd) = .ok strayOutcomes := by decide +kernel
  cases opened : Player.ofBytes shortRecording with
  | error fault => rw [opened] at outcomes; cases outcomes
  | ok p =>
    rw [opened] at outcomes
    have same : (attempts strayRequests (.player p)).map Prod.snd = strayOutcomes := Except.ok.inj outcomes
    have plain : ∀ tried ∈ attempts strayRequests (.player p), answeredOrDiverged tried.2 = true := by
      intro tried member
      have listed : tried.2 ∈ strayOutcomes := same ▸ List.mem_map_of_mem member
      exact List.all_eq_true.1 (show strayOutcomes.all answeredOrDiverged = true by decide) tried.2 listed
    obtain ⟨⟨q, last, ends, stands, told, -⟩, -⟩ := playback_as_recorded opened strayRequests plain
    exact ⟨p, q, last, rfl, same, ends, stands, told⟩

end GameHost.Replay
