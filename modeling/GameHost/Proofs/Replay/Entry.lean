import GameHost.Replay.Tape
import GameHost.Proofs.Text.Utf8

/-!
What a recorded session is made of: entries, each a header and what belongs to its operation. Every note of
a tape is one entry, and headers and addresses come back as they were written.
-/
namespace GameHost.Replay
open GameHost.Message
open GameHost.Network (Socket)

structure Entry where
  time : Double
  operation : Operation
  session : Int64
  payload : Bytes
  deriving DecidableEq, Repr

namespace Entry

def header (e : Entry) : Record := ⟨e.time, e.operation.code, e.session⟩

def bytes (e : Entry) : Bytes := e.header.encode ++ e.payload

def connection (time : Double) : Option Socket → Entry
  | some socket => ⟨time, .connect, socket.session, Tape.addressField socket.address⟩
  | none => ⟨time, .connect, 0, []⟩

def received (time : Double) (session : Int64) (kind : Int32) (message : Bytes) : Entry :=
  ⟨time, .receive, session, Bytes.ofInt32 kind ++
    if 0 < kind then Bytes.ofInt32 (Int32.ofNat message.length) ++ message else []⟩

def sent (time : Double) (session : Int64) (result : Int32) : Entry :=
  ⟨time, .send, session, Bytes.ofInt32 result⟩

def ready (time : Double) (session : Int64) (ready : Bool) : Entry :=
  ⟨time, .ready, session, Bytes.ofInt32 (if ready then 1 else 0)⟩

end Entry

def bytesOf (entries : List Entry) : Bytes := entries.flatMap Entry.bytes

@[simp] theorem bytesOf_nil : bytesOf [] = [] := rfl

@[simp] theorem bytesOf_cons (e : Entry) (later : List Entry) :
    bytesOf (e :: later) = e.header.encode ++ (e.payload ++ bytesOf later) := by
  simp [bytesOf, Entry.bytes]

@[simp] theorem bytesOf_append (first later : List Entry) :
    bytesOf (first ++ later) = bytesOf first ++ bytesOf later := by
  simp [bytesOf]

@[simp] theorem length_ofInt32 (n : Int32) : (Bytes.ofInt32 n).length = 4 := Bytes.length_ofNat 4 _

theorem Entry.length_received (time : Double) (session : Int64) (kind : Int32) (message : Bytes) :
    4 ≤ (Entry.received time session kind message).payload.length := by
  simp only [Entry.received, List.length_append, length_ofInt32]
  omega

theorem data_note_entry (e : Entry) {tape : Tape} (payload : List Bytes) (now : e.time = tape.clock)
    (same : payload.flatten = e.payload) :
    (tape.note e.operation e.session payload).data = tape.data ++ bytesOf [e] := by
  rw [Tape.data_note, same, ← now]
  simp [Entry.header]

theorem data_noteConnection (socket : Option Socket) (tape : Tape) :
    (tape.noteConnection socket).data = tape.data ++ bytesOf [.connection tape.clock socket] := by
  cases socket with
  | none => exact data_note_entry (.connection tape.clock none) [] rfl rfl
  | some socket =>
    exact data_note_entry (.connection tape.clock (some socket)) [Tape.addressField socket.address] rfl
      (by simp [Entry.connection])

theorem data_noteReceived (session : Int64) (kind : Int32) (message : Buffer) (tape : Tape) :
    (tape.noteReceived session kind message).data =
      tape.data ++ bytesOf [.received tape.clock session kind message.written] := by
  refine data_note_entry (.received tape.clock session kind message.written) _ rfl ?_
  by_cases positive : 0 < kind
  · simp [Entry.received, positive]
  · simp [Entry.received, positive]

theorem data_noteSent (session : Int64) (result : Int32) (tape : Tape) :
    (tape.noteSent session result).data = tape.data ++ bytesOf [.sent tape.clock session result] :=
  data_note_entry (.sent tape.clock session result) _ rfl (by simp [Entry.sent])

theorem data_noteReady (session : Int64) (ready : Bool) (tape : Tape) :
    (tape.noteReady session ready).data = tape.data ++ bytesOf [.ready tape.clock session ready] :=
  data_note_entry (.ready tape.clock session ready) _ rfl (by simp [Entry.ready])

@[simp] theorem clock_noteConnection (socket : Option Socket) (tape : Tape) :
    (tape.noteConnection socket).clock = tape.clock := by
  cases socket <;> rfl

namespace Record

theorem decode?_encode (record : Record) (rest : Bytes) :
    decode? (record.encode ++ rest) = some (record, rest) := by
  have time : (Bytes.ofWord64 record.time.bits).length = 8 := Bytes.length_ofNat 8 _
  have code : (Bytes.ofInt32 record.code).length = 4 := length_ofInt32 _
  have session : (Bytes.ofInt64 record.session).length = 8 := Bytes.length_ofNat 8 _
  have whole : (record.encode ++ rest).take size = record.encode := by
    rw [List.take_append_of_le_length (by simp), List.take_of_length_le (by simp)]
  have after : (record.encode ++ rest).drop size = rest := by
    rw [List.drop_append_of_le_length (by simp), List.drop_eq_nil_of_le (by simp), List.nil_append]
  have fields : record.encode = Bytes.ofWord64 record.time.bits ++
      (Bytes.ofInt32 record.code ++ Bytes.ofInt64 record.session) := by
    simp [encode, pieces]
  have first : (record.encode ++ rest).take 8 = Bytes.ofWord64 record.time.bits := by
    rw [fields, List.append_assoc, List.take_append_of_le_length (by omega),
      List.take_of_length_le (by omega)]
  have second : ((record.encode ++ rest).drop 8).take 4 = Bytes.ofInt32 record.code := by
    rw [fields, List.append_assoc, List.append_assoc, ← time, List.drop_left,
      List.take_append_of_le_length (by omega), List.take_of_length_le (by omega)]
  have third : ((record.encode ++ rest).drop 12).take 8 = Bytes.ofInt64 record.session := by
    rw [fields, ← List.append_assoc, List.append_assoc,
      show 12 = (Bytes.ofWord64 record.time.bits ++ Bytes.ofInt32 record.code).length by
        rw [List.length_append, time, code],
      List.drop_left, List.take_append_of_le_length (by omega), List.take_of_length_le (by omega)]
  rw [decode?, whole, first, second, third, after, if_neg (by simp)]
  simp

theorem known_header (e : Entry) : e.header.known = true := by
  cases operation : e.operation <;> simp only [Entry.header, operation, known] <;> decide

end Record

/-- Addresses that come back from a recording as they were: shorter than their field, and without NUL. -/
def Kept (address : Text) : Prop := Text.size address < addressSize ∧ Char.ofNat 0 ∉ address

instance (address : Text) : Decidable (Kept address) := inferInstanceAs (Decidable (_ ∧ _))

@[simp] theorem length_addressField (address : Text) : (Tape.addressField address).length = addressSize := by
  simp only [Tape.addressField, List.length_append, List.length_replicate, List.length_take]
  have : addressSize = 64 := rfl
  omega

theorem addressOf_addressField {address : Text} (kept : Kept address) :
    Player.addressOf (Tape.addressField address) = address := by
  obtain ⟨short, clean⟩ := kept
  have whole : (Text.encode address).take (addressSize - 1) = Text.encode address := by
    apply List.take_of_length_le
    rw [Text.length_encode]
    omega
  have nonzero : ∀ b ∈ Text.encode address, (b != 0) = true := by
    intro b member
    simp only [bne_iff_ne, ne_eq]
    rintro rfl
    exact Text.zero_notin_encode clean member
  obtain ⟨padding, more⟩ : ∃ n, addressSize - (Text.encode address).length = n + 1 :=
    ⟨addressSize - (Text.encode address).length - 1, by rw [Text.length_encode]; omega⟩
  have body : (Tape.addressField address).takeWhile (· != 0) = Text.encode address := by
    simp only [Tape.addressField, whole, more]
    rw [List.takeWhile_append_of_pos nonzero]
    simp [List.replicate_succ]
  rw [Player.addressOf, body, Text.decode_encode]

/-- A recorded connection is a live one: it has a session, and an address that is kept. -/
def Recordable (socket : Socket) : Prop := socket.session ≠ 0 ∧ Kept socket.address

end GameHost.Replay
