import GameHost.Proofs.Act
import GameHost.Proofs.Message.Fill
import GameHost.Proofs.Replay.Entry

/-!
A player that stands before some entries answers the request that the first of them records, with the
recorded result, and then stands before the others.
-/
namespace GameHost.Intake

theorem rest_read_all (count : Nat) (source : Packed) (i : Intake) :
    (i.read count source).2.rest source = (i.rest source).drop count := by
  by_cases there : count ≤ i.left source
  · exact rest_read there
  · have used : (i.rest source).drop count = [] :=
      List.drop_eq_nil_of_le (by rw [length_rest]; omega)
    simp only [left] at there
    rw [used, read, if_neg (by omega)]
    simp only [rest, Packed.bytes_drop, Packed.bytes_slice, Packed.size_slice]
    rw [List.drop_eq_nil_of_le (by simp; omega), List.drop_eq_nil_of_le (by simp; omega)]
    rfl

end GameHost.Intake

namespace GameHost.Replay
open GameHost.Message
open GameHost.Network (Socket)

namespace Player

def skip (count : Nat) (p : Player) : Player := (p.take count).2

@[simp] theorem rest_skip (count : Nat) (p : Player) : (p.skip count).rest = p.rest.drop count :=
  Intake.rest_read_all count p.recording p.intake

theorem left_eq (p : Player) : p.left = p.rest.length := (Intake.length_rest p.recording p.intake).symm

theorem take_eq (count : Nat) (p : Player) :
    p.take count = (if count ≤ p.rest.length then some (p.rest.take count) else none, p.skip count) := by
  rw [← left_eq]
  exact Prod.ext (Intake.read_bytes count p.recording p.intake) rfl

theorem read_of_rest {p : Player} {bytes after : Bytes} (there : p.rest = bytes ++ after) :
    read bytes.length p = .ok bytes (p.skip bytes.length) := by
  simp [read, take_eq, there]

theorem readInt32_of_rest {p : Player} {n : Int32} {after : Bytes} (there : p.rest = Bytes.ofInt32 n ++ after) :
    readInt32 p = .ok n (p.skip 4) := by
  have block : read 4 p = .ok (Bytes.ofInt32 n) (p.skip 4) := read_of_rest there
  exact (Act.bind_of_ok block).trans (by simp)

theorem rest_skip_int32 {p : Player} {n : Int32} {after : Bytes} (there : p.rest = Bytes.ofInt32 n ++ after) :
    (p.skip 4).rest = after := by
  simp [there]

/-- The entries still to come: the first one's header has been read, all else has not. -/
def Stands (p : Player) : List Entry → Prop
  | [] => p.next = none ∧ p.rest = []
  | e :: later => p.next = some e.header ∧ p.rest = e.payload ++ bytesOf later

theorem left_of_stands {p : Player} {e : Entry} {later : List Entry} (stands : p.Stands (e :: later)) :
    p.left = e.payload.length + (bytesOf later).length := by
  rw [left_eq, stands.2, List.length_append]

theorem left_of_stands_le {p : Player} {entries : List Entry} (stands : p.Stands entries) :
    p.left ≤ (bytesOf entries).length := by
  cases entries with
  | nil => simp [left_eq, stands.2]
  | cons e later =>
    rw [left_of_stands stands]
    simp

theorem left_le_of_stands {p q : Player} {passed later : List Entry} (before : p.Stands (passed ++ later))
    (after : q.Stands later) : q.left ≤ p.left := by
  cases passed with
  | nil =>
    cases later with
    | nil => simp [left_eq, after.2]
    | cons e later => rw [left_of_stands after, left_of_stands (by simpa using before)]
  | cons e passed =>
    have more : p.left = e.payload.length + (bytesOf (passed ++ later)).length := left_of_stands before
    have less := left_of_stands_le after
    rw [bytesOf_append, List.length_append] at more
    omega

theorem advance_stands {p : Player} {entries : List Entry} (there : p.rest = bytesOf entries) :
    ∃ q, advance p = .ok () q ∧ q.clock = p.clock ∧ q.Stands entries := by
  cases entries with
  | nil =>
    refine ⟨{ p.skip Record.size with next := none }, ?_, rfl, rfl, ?_⟩
    · simp [advance, take_eq, there, Record.size]
    · change (p.skip Record.size).rest = []
      rw [rest_skip, there]
      rfl
  | cons e later =>
    rw [bytesOf_cons] at there
    have header : p.rest.take Record.size = e.header.encode := by simp [there]
    have decoded : Record.decode? e.header.encode = some (e.header, []) := by
      simpa using Record.decode?_encode e.header []
    refine ⟨{ p.skip Record.size with next := some e.header }, ?_, rfl, rfl, ?_⟩
    · simp only [advance, take_eq, header]
      simp [there, decoded, Record.known_header]
    · change (p.skip Record.size).rest = _
      rw [rest_skip, there, List.drop_left' (Record.length_encode _)]

theorem ofBytes_stands (entries : List Entry) :
    ∃ p, ofBytes (bytesOf entries) = .ok p ∧ p.clock = Double.zero ∧ p.Stands entries := by
  have whole : (⟨none, Intake.fresh, Packed.ofBytes (bytesOf entries), Double.zero⟩ : Player).rest =
      bytesOf entries := by
    simp [rest, Intake.rest, Intake.fresh]
  obtain ⟨p, ran, clock, stands⟩ := advance_stands whole
  exact ⟨p, by simp only [ofBytes, start, ran], clock, stands⟩

theorem expect_of_next {p : Player} {operation : Operation} {session : Int64} (asked : Option Int64)
    (now : p.clock.equal p.clock = true) (pending : p.next = some ⟨p.clock, operation.code, session⟩)
    (whose : asked.getD session = session) :
    expect operation asked p = .ok ⟨p.clock, operation.code, session⟩ p := by
  simp [expect, pending, now, whose]

variable {p : Player} {later : List Entry}

theorem check_stands {socket : Option Socket} (now : p.clock.equal p.clock = true)
    (recordable : ∀ s, socket = some s → Recordable s)
    (stands : p.Stands (.connection p.clock socket :: later)) :
    ∃ q, check p = .ok socket q ∧ q.clock = p.clock ∧ q.Stands later := by
  cases socket with
  | none =>
    obtain ⟨pending, there⟩ := stands
    have asked : expect .connect none p = .ok ⟨p.clock, Operation.connect.code, 0⟩ p :=
      expect_of_next none now pending rfl
    obtain ⟨q, onward, clock, standing⟩ := advance_stands there
    refine ⟨q, ?_, clock, standing⟩
    rw [check, Act.bind_of_ok asked, if_pos (beq_self_eq_true _), Act.bind_of_ok onward]
    rfl
  | some socket =>
    obtain ⟨pending, there⟩ := stands
    obtain ⟨live, kept⟩ := recordable socket rfl
    have asked : expect .connect none p = .ok ⟨p.clock, Operation.connect.code, socket.session⟩ p :=
      expect_of_next none now pending rfl
    have address : read addressSize p = .ok (Tape.addressField socket.address) (p.skip addressSize) := by
      simpa [Entry.connection] using read_of_rest there
    have after : (p.skip addressSize).rest = bytesOf later := by
      rw [rest_skip, there]
      exact List.drop_left' (length_addressField socket.address)
    obtain ⟨q, onward, clock, standing⟩ := advance_stands after
    refine ⟨q, ?_, clock, standing⟩
    rw [check, Act.bind_of_ok asked, if_neg (by simpa using live), Act.bind_of_ok address, Act.bind_of_ok onward, addressOf_addressField kept]
    rfl

theorem send_stands (socket : Socket) {result : Int32} (now : p.clock.equal p.clock = true)
    (stands : p.Stands (.sent p.clock socket.session result :: later)) :
    ∃ q, send socket p = .ok result q ∧ q.clock = p.clock ∧ q.Stands later := by
  obtain ⟨pending, there⟩ := stands
  have asked : expect .send (some socket.session) p = .ok ⟨p.clock, Operation.send.code, socket.session⟩ p :=
    expect_of_next (some socket.session) now pending rfl
  obtain ⟨q, onward, clock, standing⟩ := advance_stands (rest_skip_int32 there)
  refine ⟨q, ?_, clock, standing⟩
  rw [send, Act.bind_of_ok asked, Act.bind_of_ok (readInt32_of_rest there), Act.bind_of_ok onward]
  rfl

theorem canSend_stands (socket : Socket) {ready : Bool} (now : p.clock.equal p.clock = true)
    (stands : p.Stands (.ready p.clock socket.session ready :: later)) :
    ∃ q, canSend socket p = .ok ready q ∧ q.clock = p.clock ∧ q.Stands later := by
  obtain ⟨pending, there⟩ := stands
  have asked : expect .ready (some socket.session) p = .ok ⟨p.clock, Operation.ready.code, socket.session⟩ p :=
    expect_of_next (some socket.session) now pending rfl
  obtain ⟨q, onward, clock, standing⟩ := advance_stands (rest_skip_int32 there)
  refine ⟨q, ?_, clock, standing⟩
  rw [canSend, Act.bind_of_ok asked, Act.bind_of_ok (readInt32_of_rest there), Act.bind_of_ok onward]
  cases ready <;> rfl

theorem receive_stands (socket : Socket) {kind : Int32} {message : Bytes} {b : Buffer}
    (now : p.clock.equal p.clock = true) (short : message.length ≤ messageLimit)
    (fits : message.length ≤ b.capacity)
    (stands : p.Stands (.received p.clock socket.session kind message :: later)) :
    ∃ q, receive socket (p, b) = .ok kind (q, if 0 < kind then b.holding message else b) ∧
      q.clock = p.clock ∧ q.Stands later := by
  obtain ⟨pending, there⟩ := stands
  have asked : expect .receive (some socket.session) p = .ok ⟨p.clock, Operation.receive.code, socket.session⟩ p :=
    expect_of_next (some socket.session) now pending rfl
  simp only [Entry.received, List.append_assoc] at there
  have kindRead := readInt32_of_rest there
  have afterKind := rest_skip_int32 there
  by_cases positive : 0 < kind
  · rw [if_pos positive] at afterKind ⊢
    rw [List.append_assoc] at afterKind
    have length : (Int32.ofNat message.length).toNatClampNeg = message.length :=
      Int32.toNatClampNeg_ofNat_of_lt (by unfold messageLimit at short; omega)
    have lengthRead := readInt32_of_rest afterKind
    have afterLength := rest_skip_int32 afterKind
    have messageRead : read (Int32.ofNat message.length).toNatClampNeg ((p.skip 4).skip 4) =
        .ok message (((p.skip 4).skip 4).skip message.length) := by
      rw [length]
      exact read_of_rest afterLength
    have filled : Buffer.fill message b = .ok () (b.holding message) := Buffer.fill_ok.2 ⟨fits, rfl⟩
    have after : (((p.skip 4).skip 4).skip message.length).rest = bytesOf later := by
      rw [rest_skip, afterLength, List.drop_left]
    have possible : (decide (Int32.ofNat message.length < 0) ||
        decide (messageLimit < (Int32.ofNat message.length).toNatClampNeg)) = false := by
      have nonnegative := Int32.zero_le_ofNat_of_lt (a := message.length)
        (by unfold messageLimit at short; omega)
      rw [length, Bool.or_eq_false_iff, decide_eq_false_iff_not, decide_eq_false_iff_not]
      exact ⟨Int32.not_lt.2 nonnegative, by omega⟩
    obtain ⟨q, onward, clock, standing⟩ := advance_stands after
    refine ⟨q, ?_, clock, standing⟩
    refine (Act.bind_of_ok (Act.first_of_ok asked)).trans ?_
    refine (Act.bind_of_ok (Act.first_of_ok kindRead)).trans ?_
    dsimp only
    rw [if_pos positive, Act.bind_of_ok (Act.first_of_ok lengthRead), possible, if_neg Bool.false_ne_true,
      Act.bind_of_ok (Act.first_of_ok messageRead), Act.bind_of_ok (Act.second_of_ok filled),
      Act.bind_of_ok (Act.first_of_ok onward)]
    rfl
  · rw [if_neg positive] at afterKind ⊢
    obtain ⟨q, onward, clock, standing⟩ := advance_stands afterKind
    refine ⟨q, ?_, clock, standing⟩
    refine (Act.bind_of_ok (Act.first_of_ok asked)).trans ?_
    refine (Act.bind_of_ok (Act.first_of_ok kindRead)).trans ?_
    dsimp only
    rw [if_neg positive, Act.bind_of_ok (Act.first_of_ok onward)]
    rfl

end Player

end GameHost.Replay
