import GameHost.Client.Exchange

/-!
Playing a demo. Until the client is signed on, every look for a message reads a frame of the demo; then a
frame is read when the client's time has passed that of the last one, or, in a timed demo, once in every
frame of the host.
-/
namespace GameHost.Client
open GameHost.Message (Buffer)

/-- Times shorter than a thousandth of a second count as a whole second in a speed report. -/
def shortest : Double := ⟨0x3F50624DD2F1A9FC⟩

/-- How fast the demo went: the frames after the first one, and the time since. -/
def speed (c : Client) : SpeedReport :=
  let frames := c.frames - c.timing.startFrame - 1
  let frames := if frames < 0 then 0 else frames
  let elapsed := c.clock.sub c.timing.startTime
  let seconds := if elapsed.abs.less shortest then Double.one else elapsed
  ⟨frames, seconds, (Double.ofInt frames.toInt).div seconds⟩

/-- End a timed demo and tell how fast it was. -/
def finishTiming : Act Session Unit := do
  let report := speed (← ask)
  change fun c => { c with timing.active := false, report := some report }
  print report.text

/-- End the demo being played, if there is one. -/
def stopPlayback : Act Session Unit := do
  let c ← ask
  if c.playing then
    change fun c => { c with demo := .idle, connected := false }
    if c.timing.active then finishTiming

/-- Whether a frame of the demo is due, and the timing after the look at it. -/
def frameDue (c : Client) : Bool × Timing :=
  if c.signon != signons then (true, c.timing)
  else if c.timing.active then
    if c.frames == c.timing.lastFrame then (false, c.timing)
    else
      let timing := { c.timing with lastFrame := c.frames }
      (true, if c.frames == c.timing.startFrame + 1 then { timing with startTime := c.clock } else timing)
  else (!c.view.time.atMost c.view.serverTimes.1, c.timing)

/-- The next frame of the demo, if one is due. The result is 1 if there is a message. -/
def demoMessage : Act Session Int32 := do
  let c ← ask
  let (due, timing) := frameDue c
  change fun c => { c with timing }
  match due, c.demo with
  | true, .playing file =>
    let (frame, file) := Demo.readFrame file c.disk
    change fun c => { c with demo := .playing file }
    match frame with
    | .error fault => throw fault
    | .ok none =>
      stopPlayback
      return 0
    | .ok (some frame) =>
      within Client.incoming (fun incoming c => { c with incoming }) (Buffer.fill frame.data)
      change fun c => { c with view.frameAngles := (frame.angles, c.view.frameAngles.1) }
      return 1
  | _, _ => return 0

/-- Queue the next demo of the loop. Past the last one the loop starts over. -/
def queueNextDemo : Act Session Unit := do
  let c ← ask
  if c.nextDemo != -1 then
    if c.demos.isEmpty then
      print "No demos listed with startdemos\n"
      change fun c => { c with nextDemo := -1 }
    else
      let place := if 0 ≤ c.nextDemo && c.nextDemo < c.demos.length then c.nextDemo.toNat else 0
      Host.onShell (Shell.insertText ("play " ++ c.demos.getD place [] ++ "\n"))
      change fun c => { c with nextDemo := place + 1 }

end GameHost.Client
