import GameHost.Client

/-!
Talking to the network driver. A recording that is played is read from its file as it is at that moment,
and what a recording driver writes down goes to the file of the recording right away.
-/
namespace GameHost.Client
open GameHost.Message (Buffer)
open GameHost.Network (Socket Driver)
open GameHost.Replay (Tape)

/-- A driver with what the file of the recording that is played holds now. -/
def supplied (c : Client) (net : Driver) : Driver :=
  match c.playedFile with
  | some place => net.supply (c.disk.contents place)
  | none => net

/-- Act on the file of the recorded session. -/
def onTapeFile (file : Writer) (act : FileAct Unit) : Act Session Unit := do
  match act (file, (← ask).disk) with
  | .ok _ (file, disk) => change fun c => { c with disk, tapeFile := some file }
  | .error fault (file, disk) =>
    change fun c => { c with disk, tapeFile := some file }
    throw (.storage fault)

/-- Move what was recorded from the driver to the file. After a failure the rest of it is lost. -/
def saveTape : Act Session Unit := do
  let c ← ask
  match c.tapeFile, c.net with
  | some file, some (.recorder tape inner) =>
    change fun c => { c with net := some (.recorder { tape with pieces := [] } inner) }
    onTapeFile file (Writer.writeAll tape.inOrder)
  | _, _ => pure ()

/-- Ask something of a driver, which is the session's from then on. -/
def exchange (net : Driver) (request : Act Driver α) : Act Session α := do
  let result ← within (fun c => c.supplied net) (fun net c => { c with net := some net }) request
  saveTape
  return result

/-- Receive a message of a connection. -/
def receive (net : Driver) (socket : Socket) : Act Session Int32 := do
  let kind ← within (fun c => (c.supplied net, c.incoming))
    (fun (net, incoming) c => { c with net := some net, incoming })
    (fun (net, incoming) => net.receive socket incoming)
  saveTape
  return kind

/-- Tell the driver the time. -/
def tellTime (time : Double) : Act Session Unit :=
  change fun c => { c with net := c.net.map (Driver.frame time) }

/-- Put all that was recorded into its file. -/
def finishTape : Act Session Unit := do
  let c ← ask
  match c.tapeFile with
  | none => pure ()
  | some file => onTapeFile file Writer.flush

end GameHost.Client
