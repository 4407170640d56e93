import GameHost.Binary.Decimal
import GameHost.Bytes

/-!
The header of an entry in a recorded session: when the host exchanged something with the network, what it
did, and for which session. Headers are twenty bytes, every field little-endian.
-/
namespace GameHost.Replay

/-- What the host can ask of the network and a recording answers. -/
inductive Operation where
  | connect
  | receive
  | send
  | ready
  deriving DecidableEq, Repr

def Operation.code : Operation → Int32
  | .connect => 1
  | .receive => 2
  | .send => 3
  | .ready => 4

/-- The name of an operation's code in reports. -/
def codeName (code : Int32) : Text :=
  if code == 1 then "connect"
  else if code == 2 then "getmessage"
  else if code == 3 then "sendmessage"
  else if code == 4 then "cansendmessage"
  else "unknown"

structure Record where
  time : Double
  code : Int32
  session : Int64
  deriving DecidableEq, Repr

namespace Record

def size : Nat := 20

/-- The pieces in which a header is written. -/
def pieces (record : Record) : List Bytes :=
  [Bytes.ofWord64 record.time.bits, Bytes.ofInt32 record.code, Bytes.ofInt64 record.session]

def encode (record : Record) : Bytes := record.pieces.flatten

/-- The header at the start of the bytes and the bytes after it, if a whole header is there. -/
def decode? (bytes : Bytes) : Option (Record × Bytes) :=
  if (bytes.take size).length < size then none
  else
    some ({ time := ⟨Bytes.toWord64 (bytes.take 8)⟩
            code := Bytes.toInt32 ((bytes.drop 8).take 4)
            session := Bytes.toInt64 ((bytes.drop 12).take 8) }, bytes.drop size)

/-- Whether the code is that of an operation. -/
def known (record : Record) : Bool := 1 ≤ record.code && record.code ≤ 4

/-- "what session n at t", the time to the microsecond. -/
def describe (record : Record) : Text :=
  codeName record.code ++ " session " ++ Text.ofInt record.session.toInt ++ " at " ++
    record.time.value.fixed 6

@[simp] theorem length_encode (record : Record) : record.encode.length = size := by
  simp [encode, pieces, Bytes.ofWord64, Bytes.ofInt32, Bytes.ofWord32, Bytes.ofInt64, size]

end Record

end GameHost.Replay
