import GameHost.Client.Playback
import GameHost.Client.Recording
import GameHost.Message.Field

/-!
The connection to a server: taking up one that is offered, sending what the player wrote, and leaving.
-/
namespace GameHost.Client
open GameHost.Message (Buffer)
open GameHost.Network (Driver)

/-- Tell the server that the client leaves, and forget the connection. -/
def hangUp : Act Session Unit := do
  let c ← ask
  match c.net, c.socket with
  | some net, some socket =>
    let (_, net) := net.sendUnreliable socket farewell
    change fun c => { c with net := some (net.close socket) }
  | _, _ => pure ()

/-- Leave the server or the demo. A demo being recorded off a server ends with the connection. -/
def disconnect : Act Session Unit := do
  let c ← ask
  if c.playing then stopPlayback
  else if c.connected then
    if c.recording then stopRecording
    hangUp
  change fun c => { c with socket := none, connected := false, signon := 0 }

/-- What ends the game but not the host: the demo loop stops and the connection is dropped. -/
def gameError (message : Text) : Act Session Unit := do
  print ("Host_Error: " ++ message ++ "\n")
  change fun c => { c with nextDemo := -1 }
  disconnect

/-- The game is over: go on to the next demo of the loop, if one is running. -/
def endGame : Act Session Unit := do
  disconnect
  queueNextDemo

/-- Take up a connection that is offered, unless a demo is playing. -/
def checkConnection : Act Session Unit := do
  let c ← ask
  match c.playing, c.net with
  | false, some net =>
    match ← exchange net Driver.check with
    | none => pure ()
    | some socket =>
      change fun c => { c with
        view := View.fresh, socket := some socket, connected := true, signon := 0
        outgoing := c.outgoing.clear }
  | _, _ => pure ()

/-- The order that carries a text command to the server. -/
def textCommand : Int32 := 4

/-- Add a line to the commands for the server. The word `cmd` before a command is left out. -/
def addCommand (line : Line) : Act Buffer Unit := do
  Buffer.writeByte textCommand
  if !Text.same (line.word 0) "cmd" then
    Buffer.append (line.word 0)
    Buffer.append [' ']
  if 1 < line.count then Buffer.append line.tail else Buffer.append ['\n']

/-- Queue the line being run for the server. While a demo plays there is no server to send it to. -/
def forwardLine : Act Session Unit := do
  let c ← ask
  let line ← line
  if !c.connected then print ("Can't \"" ++ line.word 0 ++ "\", not connected\n")
  else if !c.playing then
    within Client.outgoing (fun outgoing c => { c with outgoing }) (addCommand line)

/-- Send the commands that wait, if the network can take them. -/
def sendCommands : Act Session Unit := do
  let c ← ask
  if c.playing || c.outgoing.size == 0 then pure ()
  else if c.outgoing.overflowed then
    print "CL_SendCmd: message overflowed, dropped\n"
    change fun c => { c with outgoing := c.outgoing.clear }
  else
    match c.net, c.socket with
    | some net, some socket =>
      if ← exchange net (Driver.canSend socket) then
        let net := (← ask).net.getD net
        if (← exchange net (Driver.send socket c.outgoing.written)) == -1 then
          gameError "CL_WriteToServer: lost server connection"
        else change fun c => { c with outgoing := c.outgoing.clear }
    | _, _ => pure ()

end GameHost.Client
