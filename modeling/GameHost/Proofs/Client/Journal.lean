import GameHost.Proofs.Client.Walk
import GameHost.Proofs.Shell.Round
import GameHost.Proofs.Turn

/-!
A session that keeps a journal. It runs as every session does, and notes what becomes of the commands that wait for the
server, where a demo begins to be timed and what comes of it, and the frames of the host that are completed.
-/
namespace GameHost
open GameHost.Message (Buffer)
open GameHost.Network (Socket Driver)

namespace Client

inductive Event where
  /-- A line is queued for the server, with this connection or none. -/
  | queued (socket : Option Socket) (line : Line)
  /-- What waits is dropped, and that is reported. -/
  | dropped
  /-- What waits is about to be handed to the driver. -/
  | offered (socket : Socket) (payload : Bytes)
  /-- The driver has answered; the queue after it is what the answer leaves. -/
  | answered (socket : Socket) (payload : Bytes) (answer : Int32)
  | joined (socket : Socket)
  /-- A demo that has just been begun is timed. -/
  | timed
  /-- A timed demo is over, and this is its report. -/
  | finished (report : SpeedReport)
  /-- A recording takes the place of the timed demo that plays. -/
  | supplanted
  /-- A frame of the host is completed. -/
  | counted
  deriving DecidableEq

/-- Something that has happened, and the queue after it. -/
structure Mark where
  event : Event
  queue : Buffer
  deriving DecidableEq

structure Logged where
  client : Client
  /-- The journal, the first mark first. -/
  log : List Mark

end Client

open Client (Event Mark Logged)

abbrev LoggedSession := Host ClientCommand Logged

namespace Client.Logged

/-- The session without its journal. -/
def plain (h : LoggedSession) : Session := ⟨h.shell, h.world.client⟩

/-- A session with an empty journal. -/
def opened (s : Session) : LoggedSession := ⟨s.shell, ⟨s.world, []⟩⟩

/-- The report of a timed demo that comes to its end between two moments. -/
def remarks (s t : Session) : List Mark :=
  if s.world.timing.active && !t.world.timing.active then
    t.world.report.toList.map fun report => ⟨.finished report, t.world.outgoing⟩
  else []

/-- Run a call of the session's. If a timed demo ends, its report is noted. -/
def plainly (act : Act Session α) : Act LoggedSession α :=
  act.within plain fun t h => ⟨t.shell, t.world, h.world.log ++ remarks (plain h) t⟩

def note (event : Event) : Act LoggedSession Unit :=
  modify fun h => { h with world.log := h.world.log ++ [⟨event, h.world.client.outgoing⟩] }

def ask : Act LoggedSession Client := do return (← get).world.client

def forwardLine : Act LoggedSession Unit := do
  plainly Client.forwardLine
  let h ← get
  let c := h.world.client
  if c.connected && !c.playing then note (.queued c.socket h.shell.line)

def beginRecording (path : Path) (track : Int32) : Act LoggedSession Unit := do
  let before ← ask
  plainly (Client.beginRecording path track)
  if before.timing.active && before.playing && (← ask).recording then note .supplanted

def record (run : Text → Source → Act LoggedSession Unit) : Act LoggedSession Unit := do
  let line ← plainly Client.line
  let c ← ask
  match recordRefusal? line c with
  | some refusal => plainly (print refusal)
  | none =>
    let track := trackAsked line
    if line.count == 4 then plainly (print ("Forcing CD track to " ++ Text.ofInt track.toInt ++ "\n"))
    let path := c.folders.writePath (Path.withExtension (line.word 1) Demo.extension)
    if 2 < line.count then run ("map " ++ line.word 2) .player
    beginRecording path track

def timeDemo : Act LoggedSession Unit := do
  match ← plainly (demoNamed "timedemo <demoname> : gets demo speeds\n") with
  | some name =>
    if ← plainly (playDemo name) then
      plainly (change fun c => { c with timing := ⟨true, -1, c.frames, c.clock⟩ })
      note .timed
  | none => pure ()

def ifFromPlayer (act : Act LoggedSession Unit) : Act LoggedSession Unit := do
  if ← plainly fromPlayer then act

/-- Only a command to record runs a further line. -/
def perform (run : Text → Source → Act LoggedSession Unit) : ClientCommand → Act LoggedSession Unit
  | .record => ifFromPlayer (record run)
  | .timeDemo => ifFromPlayer timeDemo
  | command => plainly (Client.perform (fun _ _ => pure ()) command)

instance : Program ClientCommand Logged where
  script name w := Program.script (α := ClientCommand) name w.client
  forward := forwardLine
  forwardsUnknown w := Program.forwardsUnknown (α := ClientCommand) w.client
  perform := perform

def checkConnection : Act LoggedSession Unit := do
  let c ← ask
  match c.playing, c.net with
  | false, some net =>
    match ← plainly (exchange net Driver.check) with
    | none => pure ()
    | some socket =>
      plainly (change fun c => { c with
        view := View.fresh, socket := some socket, connected := true, signon := 0
        outgoing := c.outgoing.clear })
      note (.joined socket)
  | _, _ => pure ()

/-- Hand what waits to the driver, which has just been asked whether it is ready. -/
def offering (asked : Driver) (socket : Socket) (payload : Bytes) : Act LoggedSession Unit := do
  note (.offered socket payload)
  let net := (← ask).net.getD asked
  let answer ← plainly (exchange net (Driver.send socket payload))
  if answer == -1 then
    note (.answered socket payload answer)
    plainly (gameError "CL_WriteToServer: lost server connection")
  else
    plainly (change fun c => { c with outgoing := c.outgoing.clear })
    note (.answered socket payload answer)

def sendCommands : Act LoggedSession Unit := do
  let c ← ask
  if c.playing || c.outgoing.size == 0 then pure ()
  else if c.outgoing.overflowed then
    plainly (print "CL_SendCmd: message overflowed, dropped\n")
    plainly (change fun c => { c with outgoing := c.outgoing.clear })
    note .dropped
  else
    match c.net, c.socket with
    | some net, some socket =>
      if ← plainly (exchange net (Driver.canSend socket)) then offering net socket c.outgoing.written
    | _, _ => pure ()

def serve (seconds : Double) : Act LoggedSession Bool := do
  if (← ask).connected then
    sendCommands
    plainly (change fun c => { c with view.oldTime := c.view.time, view.time := c.view.time.add seconds })
    return true
  else return false

/-- A frame up to where messages are read. -/
def approach (seconds : Double) : Act LoggedSession Bool := do
  plainly (change fun c => { c with clock := c.clock.add seconds })
  plainly (tellTime (← ask).clock)
  Host.tick
  if !(← ask).connected then checkConnection
  serve seconds

def countFrame : Act LoggedSession Unit := do
  plainly (change fun c => { c with frames := c.frames + 1 })
  note .counted

def frame (seconds : Double) : Act LoggedSession Unit := do
  if ← approach seconds then plainly readServer
  countFrame

def turn : Turn → Act LoggedSession Unit
  | .enter text => Host.onShell (Shell.addText text)
  | .run text source => Host.runLine text source
  | .frame seconds => frame seconds
  | .shutDown => plainly shutDown

def states : List Input → Act LoggedSession (List Session)
  | [] => return []
  | .host input :: rest => do
    turn input
    let now ← get
    let later ← states rest
    return plain now :: later
  | .happen happening :: rest => do
    plainly (change fun c => { c with net := c.net.map (Driver.onLoopback happening.change) })
    states rest

end Client.Logged

/-- What is noted while a session is put through inputs. -/
def Client.journal (inputs : List Input) (s : Session) : List Mark :=
  (Act.final (Logged.states inputs (Logged.opened s))).world.log

end GameHost
