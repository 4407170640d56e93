import GameHost.Replay.Player

/-!
Recording a session: every request that a replay has to answer is written down with its result.
-/
namespace GameHost.Replay
open GameHost.Message
open GameHost.Network (Socket)

structure Tape where
  clock : Double
  /-- The pieces in which the entries so far were written, the latest piece first. -/
  pieces : List Bytes
  deriving DecidableEq, Repr

namespace Tape

def empty : Tape := ⟨Double.zero, []⟩

/-- The pieces in the order in which they were written. -/
def inOrder (tape : Tape) : List Bytes := tape.pieces.reverse

/-- All entries so far. -/
def data (tape : Tape) : Bytes := tape.inOrder.flatten

/-- Write an entry: its header and what belongs to its operation. -/
def note (operation : Operation) (session : Int64) (payload : List Bytes) (tape : Tape) : Tape :=
  let entry := Record.pieces ⟨tape.clock, operation.code, session⟩ ++ payload
  { tape with pieces := entry.reverse ++ tape.pieces }

theorem data_note (operation : Operation) (session : Int64) (payload : List Bytes) (tape : Tape) :
    (tape.note operation session payload).data =
      tape.data ++ Record.encode ⟨tape.clock, operation.code, session⟩ ++ payload.flatten := by
  simp [note, data, inOrder, Record.encode]

/-- An address in the size it is kept in, its last byte always zero. -/
def addressField (address : Text) : Bytes :=
  let kept := (Text.encode address).take (addressSize - 1)
  kept ++ List.replicate (addressSize - kept.length) 0

/-- A connection, or that there was none. -/
def noteConnection (socket : Option Socket) (tape : Tape) : Tape :=
  match socket with
  | some socket => tape.note .connect socket.session [addressField socket.address]
  | none => tape.note .connect 0 []

/-- A received message; its bytes are kept if there was one. -/
def noteReceived (session : Int64) (kind : Int32) (message : Buffer) (tape : Tape) : Tape :=
  tape.note .receive session
    (Bytes.ofInt32 kind ::
      if 0 < kind then [Bytes.ofInt32 (Int32.ofNat message.size), message.written] else [])

def noteSent (session : Int64) (result : Int32) (tape : Tape) : Tape :=
  tape.note .send session [Bytes.ofInt32 result]

def noteReady (session : Int64) (ready : Bool) (tape : Tape) : Tape :=
  tape.note .ready session [Bytes.ofInt32 (if ready then 1 else 0)]

end Tape

end GameHost.Replay
