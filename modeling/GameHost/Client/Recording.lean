import GameHost.Client.Exchange

/-!
Recording a demo. Every message of the server is written with the view angles of the moment; a disconnect
order ends the demo, so that playing it ends the game. A failing disk ends the recording, not the session.
-/
namespace GameHost.Client

/-- The message that ends every demo. -/
def farewell : Bytes := [2]

def recordingFailed (fault : StorageFault) : Act Session Unit := do
  print ("ERROR: demo write failed (" ++ fault.message ++ "), recording stopped\n")
  change (turnTo .idle)

/-- Act on the file of the demo being recorded. -/
def onDemoFile (file : Writer) (act : FileAct Unit) : Act Session (Option StorageFault) := do
  match act (file, (← ask).disk) with
  | .ok _ (file, disk) =>
    change fun c => { c with demo := .recording file, disk }
    return none
  | .error fault (file, disk) =>
    change fun c => { c with demo := .recording file, disk }
    return some fault

/-- Write the last message to the demo being recorded. -/
def recordMessage : Act Session Unit := do
  let c ← ask
  match c.demo with
  | .recording file =>
    let frame : Demo.Frame := ⟨c.view.angles, c.incoming.written⟩
    match ← onDemoFile file (Writer.writeAll frame.pieces) with
    | none => pure ()
    | some fault => recordingFailed fault
  | _ => pure ()

/-- Write the frame that ends a demo and put all of it into the file. -/
def finishDemo (angles : Angles) : FileAct Unit := do
  Writer.writeAll (Demo.Frame.pieces ⟨angles, farewell⟩)
  Writer.flush

/-- End the demo being recorded and close its file. -/
def stopRecording : Act Session Unit := do
  let c ← ask
  match c.demo with
  | .recording file =>
    match ← onDemoFile file (finishDemo c.view.angles) with
    | none =>
      change (turnTo .idle)
      print "Completed demo\n"
    | some fault => recordingFailed fault
  | _ => print "Not recording a demo.\n"

end GameHost.Client
