import GameHost.Replay.Tape

/-!
What the host talks to the network through: a loopback, a recording that is played, or either of them with
everything recorded that passes.
-/
namespace GameHost.Network
open GameHost.Message
open GameHost.Replay (Player Tape)

/-- The result of asking for a message when there is none. -/
def noMessage : Int32 := 0

def reliable : Int32 := 1

def unreliable : Int32 := 2

inductive Driver where
  | loopback (network : Loopback)
  | player (recording : Player)
  | recorder (tape : Tape) (inner : Driver)
  deriving DecidableEq, Repr

namespace Driver

def name : Driver → Text
  | .loopback _ => "Loopback"
  | .player _ => "VCR"
  | .recorder _ inner => inner.name

/-- Tell the driver the time of the host. -/
def frame (time : Double) : Driver → Driver
  | .loopback network => .loopback network
  | .player recording => .player { recording with clock := time }
  | .recorder tape inner => .recorder { tape with clock := time } (inner.frame time)

/-- Accept a connection that has arrived. -/
def check : Driver → EStateM.Result Fault Driver (Option Socket)
  | .loopback network =>
    let (socket, network) := network.accept
    .ok socket (.loopback network)
  | .player recording =>
    match Player.check recording with
    | .ok socket recording => .ok socket (.player recording)
    | .error fault recording => .error fault (.player recording)
  | .recorder tape inner =>
    match inner.check with
    | .ok socket inner => .ok socket (.recorder (tape.noteConnection socket) inner)
    | .error fault inner => .error fault (.recorder tape inner)

/-- Put the next message of a connection into a buffer. The result is the kind of the message; the buffer
holds it if that is positive. -/
def receive (socket : Socket) : Driver → Buffer → EStateM.Result Fault (Driver × Buffer) Int32
  | .loopback network, message =>
    match network.take socket.session with
    | (none, network) => .ok noMessage (.loopback network, message)
    | (some delivery, network) =>
      match Buffer.fill delivery.data message with
      | .ok _ message => .ok delivery.kind (.loopback network, message)
      | .error fault message => .error fault (.loopback network, message)
  | .player recording, message =>
    match Player.receive socket (recording, message) with
    | .ok kind (recording, message) => .ok kind (.player recording, message)
    | .error fault (recording, message) => .error fault (.player recording, message)
  | .recorder tape inner, message =>
    match receive socket inner message with
    | .ok kind (inner, message) =>
      .ok kind (.recorder (tape.noteReceived socket.session kind message) inner, message)
    | .error fault (inner, message) => .error fault (.recorder tape inner, message)

/-- Send a reliable message. The result is 1 if it is on its way, 0 if it cannot be sent now, and -1 if it
never can. -/
def send (socket : Socket) (data : Bytes) : Driver → EStateM.Result Fault Driver Int32
  | .loopback network =>
    if network.ready then .ok 1 (.loopback (network.send socket.session data))
    else .ok 0 (.loopback network)
  | .player recording =>
    match Player.send socket recording with
    | .ok result recording => .ok result (.player recording)
    | .error fault recording => .error fault (.player recording)
  | .recorder tape inner =>
    match send socket data inner with
    | .ok result inner => .ok result (.recorder (tape.noteSent socket.session result) inner)
    | .error fault inner => .error fault (.recorder tape inner)

/-- Send a message that may get lost. It is not recorded, and a replay takes it without a word. -/
def sendUnreliable (socket : Socket) (data : Bytes) : Driver → Int32 × Driver
  | .loopback network => (1, .loopback (network.send socket.session data))
  | .player recording => (1, .player recording)
  | .recorder tape inner =>
    let (result, inner) := sendUnreliable socket data inner
    (result, .recorder tape inner)

/-- Whether a reliable message can be sent now. -/
def canSend (socket : Socket) : Driver → EStateM.Result Fault Driver Bool
  | .loopback network => .ok network.ready (.loopback network)
  | .player recording =>
    match Player.canSend socket recording with
    | .ok ready recording => .ok ready (.player recording)
    | .error fault recording => .error fault (.player recording)
  | .recorder tape inner =>
    match canSend socket inner with
    | .ok ready inner => .ok ready (.recorder (tape.noteReady socket.session ready) inner)
    | .error fault inner => .error fault (.recorder tape inner)

def close (socket : Socket) : Driver → Driver
  | .loopback network => .loopback (network.close socket.session)
  | .player recording => .player recording
  | .recorder tape inner => .recorder tape (inner.close socket)

/-- The loopback inside, if there is one. -/
def loopback? : Driver → Option Loopback
  | .loopback network => some network
  | .player _ => none
  | .recorder _ inner => inner.loopback?

/-- Change the loopback inside, if there is one. -/
def onLoopback (change : Loopback → Loopback) : Driver → Driver
  | .loopback network => .loopback (change network)
  | .player recording => .player recording
  | .recorder tape inner => .recorder tape (inner.onLoopback change)

/-- The recording inside that is played, if there is one. -/
def player? : Driver → Option Player
  | .loopback _ => none
  | .player recording => some recording
  | .recorder _ inner => inner.player?

/-- Go on with the recording that is played as it is by now. -/
def supply (data : Packed) : Driver → Driver
  | .loopback network => .loopback network
  | .player recording => .player (recording.supply data)
  | .recorder tape inner => .recorder tape (inner.supply data)

/-- What has been recorded, if the driver records. -/
def tape? : Driver → Option Tape
  | .recorder tape _ => some tape
  | _ => none

/-- A bound on the messages that can still be received: those that wait in a loopback, and the bytes of a
recording. -/
def backlog : Driver → Nat
  | .loopback network => network.inbox.length
  | .player recording => recording.left
  | .recorder _ inner => inner.backlog

end Driver

end GameHost.Network
