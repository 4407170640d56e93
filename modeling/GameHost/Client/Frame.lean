import GameHost.Client.Command
import GameHost.Client.Obey

/-!
A frame of the host: the clocks go on, the queued lines run, and messages are exchanged with the server or
taken from the demo that plays.
-/
namespace GameHost.Client
open GameHost.Network (Socket reliable unreliable)

/-- The message of a server that has nothing to say but is still there. -/
def keepalive : Bytes := [1]

/-- The next message from the network that is more than a sign of life, at most `fuel` being looked at. -/
def networkMessage (socket : Socket) : Nat → Act Session Int32
  | 0 => throw .endless
  | fuel + 1 => do
    match (← ask).net with
    | none => return 0
    | some net =>
      let kind ← receive net socket
      if kind != reliable && kind != unreliable then return kind
      else if (← ask).incoming.written == keepalive then
        print "<-- server to client keepalive\n"
        networkMessage socket fuel
      else
        recordMessage
        return kind

/-- The next message, from the demo if one plays. The result is zero when there is none now, and -1 when
the connection is lost. -/
def nextMessage : Act Session Int32 := do
  let c ← ask
  if c.playing then demoMessage
  else
    match c.net, c.socket with
    | some net, some socket => networkMessage socket ((c.supplied net).backlog + 1)
    | _, _ => return 0

/-- Read messages and do what they say until there are no more, or the game is over. -/
def readWithin : Nat → Act Session Unit
  | 0 => throw .endless
  | fuel + 1 => do
    let kind ← nextMessage
    if kind == -1 then gameError "CL_ReadFromServer: lost server connection"
    else if kind != 0 then
      obeyMessage
      if (← ask).connected then readWithin fuel

/-- A bound on the messages that can be read now. A demo being recorded may go to the very file that a
recorded session is played from, which then grows, but by less than is read from it. -/
def backlog (c : Client) : Nat :=
  (c.net.map fun net => (c.supplied net).backlog).getD 0 +
    match c.demo with
    | .playing file => file.left c.disk
    | .recording file => file.offset + file.held.size
    | .idle => 0

def readServer : Act Session Unit := do readWithin (backlog (← ask) + 1)

/-- One frame, of so many seconds. -/
def frame (seconds : Double) : Act Session Unit := do
  change fun c => { c with clock := c.clock.add seconds }
  tellTime (← ask).clock
  Host.tick
  if !(← ask).connected then checkConnection
  if (← ask).connected then
    sendCommands
    change fun c => { c with view.oldTime := c.view.time, view.time := c.view.time.add seconds }
    readServer
  change fun c => { c with frames := c.frames + 1 }

/-- Frames until the player quits, at most so many. The result is how many there were, with those before. -/
def framesWithin (seconds : Double) : Nat → Nat → Act Session Nat
  | 0, before => return before
  | limit + 1, before => do
    if (← ask).quitting then return before
    else
      frame seconds
      framesWithin seconds limit (before + 1)

/-- More frames than any host will live to see. -/
def frameBudget : Nat := Nat.pow 2 62

/-- Frames until the player quits, or until a limit if there is one. The result is how many there were. -/
def run (limit : Option Nat) (seconds : Double) : Act Session Nat := do
  let frames ← framesWithin seconds (limit.getD frameBudget) 0
  if limit.isNone && !(← ask).quitting then throw .endless
  return frames

/-- End the session: the demo is finished, the connection dropped, the configuration saved, and the
recording of the session completed. -/
def shutDown : Act Session Unit := do
  if (← ask).recording then stopRecording
  disconnect
  writeConfig
  finishTape

/-- Let go of all files, as they are. -/
def close (c : Client) : Disk :=
  let disk := c.demo.close c.disk
  match c.tapeFile with
  | some file => file.close disk
  | none => disk

end GameHost.Client
