import GameHost.Client.Connection

/-!
The commands of the client. What writes files, plays demos or quits is for the player only and does nothing
on a remote line.
-/
namespace GameHost.Client

def configName : Text := "config.cfg"

/-- Replace the file of a path by some text. -/
def saveText (path : Path) (text : Text) : DiskAct Unit := do
  let file ← Writer.create path (Text.encode text)
  let _ ← file.run Writer.flush

/-- Write the archived variables and the aliases to the configuration file. -/
def writeConfig : Act Session Unit := do
  let s ← get
  let path := s.world.folders.writePath configName
  match saveText path (s.shell.variableScript ++ s.shell.aliasScript) s.world.disk with
  | .ok _ disk => change fun c => { c with disk }
  | .error _ disk =>
    change fun c => { c with disk }
    print ("Couldn't write " ++ configName ++ ".\n")

/-- The track that a line to record asks for, -1 if it asks for none. -/
def trackAsked (line : Line) : Int32 :=
  if line.count == 4 then Numeral.toInt32 (line.word 3) else -1

/-- Begin the demo file of a path. -/
def beginRecording (path : Path) (track : Int32) : Act Session Unit := do
  print ("recording to " ++ path ++ ".\n")
  match Writer.create path (Demo.trackLine track) (← ask).disk with
  | .ok file disk =>
    change fun c => { c with disk, track }
    change (turnTo (.recording file))
  | .error _ disk =>
    change fun c => { c with disk }
    print "ERROR: couldn't open.\n"

/-- Whether a text has two points in a row. -/
def hasTwoPoints : Text → Bool
  | '.' :: '.' :: _ => true
  | _ :: rest => hasTwoPoints rest
  | [] => false

/-- Why a line to record is refused, if it is. -/
def recordRefusal? (line : Line) (c : Client) : Option Text :=
  if line.count < 2 || 4 < line.count then some "record <demoname> [<map> [cd track]]\n"
  else if hasTwoPoints (line.word 1) then some "Relative pathnames are not allowed.\n"
  else if line.count == 2 && c.connected then
    some ("Can not record - already connected to server\n" ++
      "Client demo recording must be started before connecting\n")
  else if c.recording then some "Already recording.\n"
  else none

/-- Record a demo, after starting the map if one is named. -/
def record (run : Text → Source → Act Session Unit) : Act Session Unit := do
  let line ← line
  let c ← ask
  match recordRefusal? line c with
  | some refusal => print refusal
  | none =>
    let track := trackAsked line
    if line.count == 4 then print ("Forcing CD track to " ++ Text.ofInt track.toInt ++ "\n")
    let path := c.folders.writePath (Path.withExtension (line.word 1) Demo.extension)
    if 2 < line.count then run ("map " ++ line.word 2) .player
    beginRecording path track

/-- Play the demo of that name in place of what the client does now. Tells whether it could be opened. -/
def playDemo (name : Text) : Act Session Bool := do
  disconnect
  print ("Playing demo from " ++ name ++ ".\n")
  let c ← ask
  match (c.folders.find name c.disk).bind fun path => (c.disk.locate path).toOption with
  | none =>
    print "ERROR: couldn't open.\n"
    change fun c => { c with nextDemo := -1 }
    return false
  | some place =>
    let (line, file) := (Reader.atStart place).line c.disk
    change (turnTo (.playing file))
    change fun c => { c with
      view := View.fresh, track := Demo.trackOf line, connected := true, signon := 0 }
    return true

/-- The demo that a line names, if it names one, else how the line is to be used. -/
def demoNamed (usage : Text) : Act Session (Option Text) := do
  let line ← line
  if line.count == 2 then return some (Path.withExtension (line.word 1) Demo.extension)
  else
    print usage
    return none

def play : Act Session Unit := do
  match ← demoNamed "play <demoname> : plays a demo\n" with
  | some name => let _ ← playDemo name
  | none => pure ()

/-- Play a demo as fast as it goes. The time is taken from the second frame on. -/
def timeDemo : Act Session Unit := do
  match ← demoNamed "timedemo <demoname> : gets demo speeds\n" with
  | some name =>
    if ← playDemo name then
      change fun c => { c with timing := ⟨true, -1, c.frames, c.clock⟩ }
  | none => pure ()

/-- The most demos in the loop. -/
def loopLimit : Nat := 8

/-- The most characters of a demo's name in the loop. -/
def loopNameLimit : Nat := 15

/-- Make the demos of the line the loop, and begin it unless a demo is playing or loops are stopped. -/
def startDemos : Act Session Unit := do
  let named := (← line).words.drop 1
  if loopLimit < named.length then
    print ("Max " ++ Text.ofNat loopLimit ++ " demos in demoloop\n")
  let demos := named.take loopLimit
  print (Text.ofNat demos.length ++ " demo(s) in loop\n")
  change fun c => { c with demos := demos.map (List.take loopNameLimit) }
  let c ← ask
  if c.nextDemo != -1 && !c.playing then
    change fun c => { c with nextDemo := 0 }
    queueNextDemo
  else change fun c => { c with nextDemo := -1 }

/-- Go back to the demo loop. -/
def resumeDemos : Act Session Unit := do
  change fun c => { c with nextDemo := if c.nextDemo == -1 then 1 else c.nextDemo }
  disconnect
  queueNextDemo

/-- Stop the demo being played; the loop stays where it is. -/
def stopDemo : Act Session Unit := do
  if (← ask).playing then
    stopPlayback
    disconnect

/-- Do something if the player asked for it. -/
def ifFromPlayer (act : Act Session Unit) : Act Session Unit := do
  if ← fromPlayer then act

def perform (run : Text → Source → Act Session Unit) : ClientCommand → Act Session Unit
  | .disconnect => disconnect
  | .quit => ifFromPlayer (change fun c => { c with quitting := true })
  | .writeConfig => ifFromPlayer writeConfig
  | .record => ifFromPlayer (record run)
  | .stop => ifFromPlayer stopRecording
  | .play => ifFromPlayer play
  | .timeDemo => ifFromPlayer timeDemo
  | .startDemos => startDemos
  | .demos => resumeDemos
  | .stopDemo => stopDemo

instance : Program ClientCommand Client where
  script name c := c.folders.load name c.disk
  forward := forwardLine
  forwardsUnknown c := c.connected && !c.playing
  perform := perform

/-- The names of the client's commands. -/
def commands : List (Text × Action ClientCommand) :=
  [("disconnect", .own .disconnect), ("quit", .own .quit), ("writeconfig", .own .writeConfig),
   ("record", .own .record), ("stop", .own .stop), ("play", .own .play),
   ("timedemo", .own .timeDemo), ("startdemos", .own .startDemos), ("demos", .own .demos),
   ("stopdemo", .own .stopDemo)]

/-- A session at its start: the standard commands, the player's name and the client's commands. -/
def newSession (folders : SearchPath) (disk : Disk) (console : Console) : Session :=
  let shell := (Shell.empty console).registerStandard
  let shell := (shell.registerVariable "_cl_name" "player" true false).2
  ⟨shell.registerAll commands, Client.start folders disk⟩

end GameHost.Client
