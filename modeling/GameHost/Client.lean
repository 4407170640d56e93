import GameHost.Demo
import GameHost.Host
import GameHost.Network.Driver
import GameHost.SearchPath

/-!
The client: its connection to a server, the demo it records or plays, and the clocks. A session is a client
with its shell; what the client does are actions on the session.
-/
namespace GameHost
open GameHost.Message (Buffer)
open GameHost.Network (Socket Driver)

/-- What the server's messages say about the game. A new connection and a new demo start it afresh. -/
structure View where
  angles : Angles
  /-- The angles of the last two demo frames, newest first. -/
  frameAngles : Angles × Angles
  /-- The server's times of the last two messages, newest first. -/
  serverTimes : Double × Double
  /-- The client's own idea of the server's time, and the one of the frame before. -/
  time : Double
  oldTime : Double
  deriving DecidableEq, Repr

def View.fresh : View :=
  ⟨Angles.zero, (Angles.zero, Angles.zero), (Double.zero, Double.zero), Double.zero, Double.zero⟩

/-- A demo played as fast as it goes, one message a frame. -/
structure Timing where
  active : Bool
  /-- The frame that read the last message. -/
  lastFrame : Int32
  /-- The frame in which the demo was started. -/
  startFrame : Int32
  /-- The time of the frame after that. -/
  startTime : Double
  deriving DecidableEq, Repr

/-- The outcome of the last timed demo. -/
structure SpeedReport where
  frames : Int32
  seconds : Double
  rate : Double
  deriving DecidableEq, Repr

def SpeedReport.text (r : SpeedReport) : Text :=
  Text.ofInt r.frames.toInt ++ " frames " ++ r.seconds.value.fixed 5 ++ " seconds " ++
    r.rate.value.fixed 2 ++ " fps\n"

/-- The client's own commands. -/
inductive ClientCommand where
  | disconnect
  | quit
  | writeConfig
  | record
  | stop
  | play
  | timeDemo
  | startDemos
  | demos
  | stopDemo
  deriving DecidableEq, Repr

structure Client where
  folders : SearchPath
  disk : Disk
  connected : Bool
  /-- How far the server's signing on has come, from 0 to 4. -/
  signon : Int
  /-- Reliable text commands that wait to be sent. -/
  outgoing : Buffer
  socket : Option Socket
  demo : Demo.Activity
  /-- The music track a demo forces, -1 for none. -/
  track : Int32
  timing : Timing
  report : Option SpeedReport
  /-- The place in the demo loop of the demo to play next, -1 when no demos are to be played. -/
  nextDemo : Int
  demos : List Text
  view : View
  /-- The last message received or read from a demo. -/
  incoming : Buffer
  net : Option Driver
  /-- The file that a recorded session is played from. -/
  playedFile : Option Place
  /-- The file that a recorded session goes to. -/
  tapeFile : Option Writer
  frames : Int32
  clock : Double
  /-- Set by the command to quit: no frame is begun any more. -/
  quitting : Bool
  deriving DecidableEq, Repr

abbrev Session := Host ClientCommand Client

namespace Client

/-- The signing on that makes a connection complete. -/
def signons : Int := 4

/-- The longest message that can be received. -/
def incomingLimit : Nat := 8192

/-- The most text commands, in bytes, that can wait to be sent. -/
def outgoingLimit : Nat := 8000

def start (folders : SearchPath) (disk : Disk) : Client :=
  { folders, disk
    connected := false
    signon := 0
    outgoing := Buffer.overflowing outgoingLimit
    socket := none
    demo := .idle
    track := -1
    timing := ⟨false, -1, 0, Double.zero⟩
    report := none
    nextDemo := 0
    demos := []
    view := View.fresh
    incoming := Buffer.strict incomingLimit
    net := none
    playedFile := none
    tapeFile := none
    frames := 0
    clock := Double.zero
    quitting := false }

def playing (c : Client) : Bool := c.demo.isPlaying

def recording (c : Client) : Bool := c.demo.isRecording

/-- Take up something else to do with demos, letting go of the file before. -/
def turnTo (activity : Demo.Activity) (c : Client) : Client :=
  { c with demo := activity, disk := c.demo.close c.disk }

/-- The client of a session. -/
def ask : Act Session Client := do return (← get).world

def change (f : Client → Client) : Act Session Unit := modify fun s => { s with world := f s.world }

/-- Run an action on a part of the client. -/
def within (view : Client → σ) (replace : σ → Client → Client) (act : Act σ α) : Act Session α :=
  Act.within (fun s => view s.world) (fun part s => { s with world := replace part s.world }) act

def print (text : Text) : Act Session Unit := Host.print text

/-- Whether the line being run was given by the player. -/
def fromPlayer : Act Session Bool := do return (← get).shell.source == .player

/-- The line being run. -/
def line : Act Session Line := do return (← get).shell.line

end Client

end GameHost
