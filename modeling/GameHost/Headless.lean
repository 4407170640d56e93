import GameHost.Client.Frame
import GameHost.Options

/-!
The headless host: no window, no sound and no wire. It runs frames of one length against a loopback network
or a recorded session, so that a recorded run and its replay share every tick of the clock.
-/
namespace GameHost.Headless
open GameHost.Client (ask change print)
open GameHost.Network (Driver Loopback)
open GameHost.Replay (Player Tape)

/-- The session before anything of it has started. -/
def prepare (options : Options) (disk : Disk) (console : Console) : Session :=
  let folders := SearchPath.ofBase options.base
  let folders := options.gameFolder?.elim folders fun folder => folders.addGame folder
  Client.newSession folders disk console

/-- A loopback, with a connection on its way if an address is given. -/
def loopbackFor (options : Options) : Loopback :=
  options.connect.elim Loopback.empty fun address => (Loopback.empty.connect address).2

/-- Install the driver: a recorded session in place of any network, else a loopback, recorded if asked. -/
def connectDriver (options : Options) : Act Session Unit := do
  let disk := (← ask).disk
  match options.playback, options.record with
  | some path, _ =>
    match disk.read path with
    | .error fault => throw (.storage fault)
    | .ok data =>
      match Player.start data with
      | .error fault => throw fault
      | .ok player => change fun c => { c with
          net := some (.player player), playedFile := (disk.locate path).toOption }
  | none, some path =>
    match Disk.create path disk with
    | .error fault _ => throw (.storage fault)
    | .ok place disk =>
      change fun c => { c with
        disk
        net := some (.recorder Tape.empty (.loopback (loopbackFor options)))
        tapeFile := some (Writer.atStart place) }
  | none, none => change fun c => { c with net := some (.loopback (loopbackFor options)) }

def banner : Text := "====== qcore 1.09 initialized ======\n"

/-- Start a prepared session: the settings among the arguments are made, and the configuration and the
other commands among the arguments are queued for the first frame. -/
def start (args : Arguments) : Act Session Unit := do
  connectDriver (Options.ofArguments args)
  let (settings, args) := args.settings
  Host.onShell fun s => settings.foldl (fun s line => s.addText line) s
  Host.tick
  let c ← ask
  if (c.folders.find Client.configName c.disk).isSome then
    Host.onShell (Shell.addText ("exec " ++ Client.configName ++ "\n"))
  Host.onShell fun s => { s with arguments := args }
  Host.onShell (Shell.addText "stuffcmds\n")
  print banner

/-- A whole run of a prepared session. The result is how many frames there were. -/
def play (args : Arguments) : Act Session Nat := do
  start args
  let options := Options.ofArguments args
  let frames ← Client.run options.frames options.frameTime
  Client.shutDown
  return frames

/-- What a run left behind. -/
structure Outcome where
  frames : Except Fault Nat
  console : Console
  disk : Disk

/-- Run the host with some arguments on a disk. However it ends, its files are closed. -/
def run (args : Arguments) (disk : Disk) (console : Console) : Outcome :=
  match play args (prepare (Options.ofArguments args) disk console) with
  | .ok frames s => ⟨.ok frames, s.shell.console, Client.close s.world⟩
  | .error fault s => ⟨.error fault, s.shell.console, Client.close s.world⟩

/-- What is said of a fault that ends the program. -/
def complaint (fault : Fault) : Text := "Error: " ++ fault.message ++ "\n"

end GameHost.Headless
