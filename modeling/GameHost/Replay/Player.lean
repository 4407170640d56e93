import GameHost.Intake
import GameHost.Message.Buffer
import GameHost.Network.Loopback

/-!
Replaying a recorded session. Whatever the host asks must be what it asked when the session was recorded, at
the same time; the answer is then the recorded one. Anything else is a fault, and leaves the recording where
it is.
-/
namespace GameHost.Replay
open GameHost.Message
open GameHost.Network (Socket)

/-- Bytes kept of an address, padded with zeros. -/
def addressSize : Nat := 64

/-- The longest message that can be recorded. -/
def messageLimit : Nat := 8192

structure Player where
  /-- The entry that the next request must match. -/
  next : Option Record
  intake : Intake
  recording : Packed
  clock : Double
  deriving DecidableEq, Repr

namespace Player

/-- The bytes after the header of the pending entry. -/
def rest (p : Player) : Bytes := p.intake.rest p.recording

/-- How many bytes there are after the header of the pending entry. -/
def left (p : Player) : Nat := p.intake.left p.recording

/-- Go on with the recording as it is by now. -/
def supply (recording : Packed) (p : Player) : Player := { p with recording }

/-- The next bytes of the recording, if there are so many; if not, all that is left is used up. -/
def take (count : Nat) (p : Player) : Option Bytes × Player :=
  let (bytes, intake) := p.intake.read count p.recording
  (bytes, { p with intake })

def read (count : Nat) : Act Player Bytes := fun p =>
  match p.take count with
  | (some bytes, p) => .ok bytes p
  | (none, p) => .error (.storage .cutShort) p

def readInt32 : Act Player Int32 := do return Bytes.toInt32 (← read 4)

/-- Go on to the next entry. A header that is cut short ends the recording. -/
def advance : Act Player Unit := fun p =>
  let (header, p) := p.take Record.size
  match header.bind Record.decode? with
  | none => .ok () { p with next := none }
  | some (record, _) =>
    let after := { p with next := some record }
    if record.known then .ok () after else .error (.unknownOperation record.code) after

/-- A player at the first entry of a recording. -/
def start (recording : Packed) : Except Fault Player :=
  match advance ⟨none, Intake.fresh, recording, Double.zero⟩ with
  | .ok _ p => .ok p
  | .error fault _ => .error fault

def ofBytes (bytes : Bytes) : Except Fault Player := start (Packed.ofBytes bytes)

/-- The pending entry, if it is of this operation, at this time, and of the session if one is given. -/
def expect (operation : Operation) (session : Option Int64) : Act Player Record := fun p =>
  match p.next with
  | none => .error .recordingEnded p
  | some record =>
    if record.time.equal p.clock && record.code == operation.code
        && (session.getD record.session == record.session) then .ok record p
    else .error (.diverged ⟨p.clock, operation.code, session.getD 0⟩ record) p

/-- The address in its padded form. -/
def addressOf (bytes : Bytes) : Text := Text.decode (bytes.takeWhile (· != 0))

def check : Act Player (Option Socket) := do
  let record ← expect .connect none
  if record.session == 0 then
    advance
    return none
  else
    let address ← read addressSize
    advance
    return some ⟨record.session, addressOf address⟩

/-- The recorded message of a session. Its bytes are in the buffer even if what follows is faulty. -/
def receive (socket : Socket) : Act (Player × Buffer) Int32 := do
  let _ ← Act.first (expect .receive (some socket.session))
  let kind ← Act.first readInt32
  if 0 < kind then
    let length ← Act.first readInt32
    if length < 0 || messageLimit < length.toNatClampNeg then throw (.messageLength length)
    let data ← Act.first (read length.toNatClampNeg)
    Act.second (Buffer.fill data)
  Act.first advance
  return kind

def send (socket : Socket) : Act Player Int32 := do
  let _ ← expect .send (some socket.session)
  let result ← readInt32
  advance
  return result

def canSend (socket : Socket) : Act Player Bool := do
  let _ ← expect .ready (some socket.session)
  let result ← readInt32
  advance
  return result != 0

end Player

end GameHost.Replay
