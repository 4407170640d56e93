import GameHost.Client.Frame
import GameHost.Proofs.Act

/-!
What lies beyond the connection, the demo and the files of a client. Working with these leaves all the rest of a
session as it is, and so whatever can be read off the rest.
-/
namespace GameHost

theorem Act.Keeps.ask_bind {β γ : Type} {view : Session → γ} {next : Client → Act Session β}
    (each : ∀ c, Keeps view (next c)) : Keeps view (Client.ask >>= next) :=
  fun s => each s.world s

theorem Act.Keeps.line_bind {β γ : Type} {view : Session → γ} {next : Line → Act Session β}
    (each : ∀ line, Keeps view (next line)) : Keeps view (Client.line >>= next) :=
  fun s => each s.shell.line s

namespace Client

/-- Whether what is seen of a session leaves out what was printed, the driver and the files. -/
def Blind {γ : Type} (view : Session → γ) : Prop :=
  ∀ s console net disk tapeFile, view ⟨{ s.shell with console }, { s.world with net, disk, tapeFile }⟩ = view s

namespace Blind

variable {γ : Type} {view : Session → γ} (blind : Blind view)
include blind

theorem change {f : Client → Client} (same : ∀ c, ∃ net disk tapeFile, f c = { c with net, disk, tapeFile }) :
    Act.Keeps view (change f) := by
  intro s
  obtain ⟨net, disk, tapeFile, now⟩ := same s.world
  change view { s with world := f s.world } = view s
  rw [now]
  exact blind s s.shell.console net disk tapeFile

theorem print (text : Text) : Act.Keeps view (print text) :=
  fun s => blind s _ s.world.net s.world.disk s.world.tapeFile

theorem changeDisk (disk : Disk) : Act.Keeps view (Client.change fun c => { c with disk }) :=
  blind.change fun c => ⟨c.net, disk, c.tapeFile, rfl⟩

theorem writeConfig : Act.Keeps view writeConfig := by
  apply Act.Keeps.get_bind
  intro s
  dsimp only
  split
  · exact blind.changeDisk _
  · exact .bind (blind.changeDisk _) fun _ => blind.print _

theorem onTapeFile (file : Writer) (act : FileAct Unit) : Act.Keeps view (onTapeFile file act) := by
  have left (file : Writer) (disk : Disk) : Act.Keeps view (Client.change fun c => { c with disk, tapeFile := some file }) :=
    blind.change fun c => ⟨c.net, disk, some file, rfl⟩
  apply Act.Keeps.ask_bind
  intro c
  split
  · exact left _ _
  · exact .bind (left _ _) fun _ => .throw _

theorem saveTape : Act.Keeps view saveTape := by
  apply Act.Keeps.ask_bind
  intro c
  split
  · exact .bind (blind.change fun c => ⟨_, c.disk, c.tapeFile, rfl⟩) fun _ => blind.onTapeFile _ _
  · exact .pure _

theorem finishTape : Act.Keeps view finishTape := by
  apply Act.Keeps.ask_bind
  intro c
  split
  · exact .pure _
  · exact blind.onTapeFile _ _

theorem hangUp : Act.Keeps view hangUp := by
  apply Act.Keeps.ask_bind
  intro c
  split
  · exact blind.change fun c => ⟨_, c.disk, c.tapeFile, rfl⟩
  · exact .pure _

theorem demoNamed (usage : Text) : Act.Keeps view (demoNamed usage) := by
  apply Act.Keeps.line_bind
  intro line
  split
  · exact .pure _
  · exact .bind (blind.print _) fun _ => .pure _

section
variable (unseen : ∀ (s : Session) demo track, view { s with world := { s.world with demo, track } } = view s)
include unseen

theorem changeDemo {f : Client → Client} (same : ∀ c, ∃ demo disk track, f c = { c with demo, disk, track }) :
    Act.Keeps view (Client.change f) := by
  intro s
  obtain ⟨demo, disk, track, now⟩ := same s.world
  change view { s with world := f s.world } = view s
  rw [now]
  exact (unseen { s with world := { s.world with disk } } demo track).trans
    (blind s s.shell.console s.world.net disk s.world.tapeFile)

theorem onDemoFile (file : Writer) (act : FileAct Unit) : Act.Keeps view (onDemoFile file act) := by
  have left (file : Writer) (disk : Disk) :
      Act.Keeps view (Client.change fun c => { c with demo := .recording file, disk }) :=
    blind.changeDemo unseen fun c => ⟨.recording file, disk, c.track, rfl⟩
  apply Act.Keeps.ask_bind
  intro c
  split
  · exact .bind (left _ _) fun _ => .pure _
  · exact .bind (left _ _) fun _ => .pure _

theorem turnTo (activity : Demo.Activity) : Act.Keeps view (Client.change (turnTo activity)) :=
  blind.changeDemo unseen fun c => ⟨activity, c.demo.close c.disk, c.track, rfl⟩

theorem recordingFailed (fault : StorageFault) : Act.Keeps view (recordingFailed fault) :=
  .bind (blind.print _) fun _ => blind.turnTo unseen _

theorem recordMessage : Act.Keeps view recordMessage := by
  apply Act.Keeps.ask_bind
  intro c
  split
  · apply Act.Keeps.bind (blind.onDemoFile unseen _ _)
    intro fault
    cases fault with
    | none => exact .pure _
    | some fault => exact blind.recordingFailed unseen fault
  · exact .pure _

theorem stopRecording : Act.Keeps view stopRecording := by
  apply Act.Keeps.ask_bind
  intro c
  split
  · apply Act.Keeps.bind (blind.onDemoFile unseen _ _)
    intro fault
    cases fault with
    | none => exact .bind (blind.turnTo unseen _) fun _ => blind.print _
    | some fault => exact blind.recordingFailed unseen fault
  · exact blind.print _

theorem beginRecording (path : Path) (track : Int32) : Act.Keeps view (beginRecording path track) := by
  have tracked (disk : Disk) : Act.Keeps view (Client.change fun c => { c with disk, track }) :=
    blind.changeDemo unseen fun c => ⟨c.demo, disk, track, rfl⟩
  apply Act.Keeps.bind (blind.print _)
  intro _
  apply Act.Keeps.ask_bind
  intro c
  split
  · exact .bind (tracked _) fun _ => blind.turnTo unseen _
  · exact .bind (blind.changeDisk _) fun _ => blind.print _

end

end Blind

/-- The session without its connection, its demo, its files and what was printed. -/
def beyond (s : Session) : Session :=
  { s with
    shell := { s.shell with console := Console.captured }
    world := { s.world with
      net := none, connected := false
      demo := .idle, track := 0, timing := { s.world.timing with active := false }, report := none
      disk := Disk.empty [], tapeFile := none } }

theorem blind_beyond : Blind beyond := fun _ _ _ _ _ => rfl

theorem beyond_demo (s : Session) (demo : Demo.Activity) (track : Int32) :
    beyond { s with world := { s.world with demo, track } } = beyond s := rfl

/-- An action that changes nothing beyond these, however it ends. -/
abbrev Confined {α : Type} (act : Act Session α) : Prop := Act.Keeps beyond act

namespace Confined

theorem change {f : Client → Client} (same : ∀ s : Session, beyond { s with world := f s.world } = beyond s) :
    Confined (change f) := same

theorem print (text : Text) : Confined (print text) := blind_beyond.print text

theorem finishTiming : Confined finishTiming :=
  .ask_bind fun _ => .bind (change fun _ => rfl) fun _ => print _

theorem stopPlayback : Confined stopPlayback := by
  apply Act.Keeps.ask_bind
  intro c
  split
  · apply Act.Keeps.bind (change fun _ => rfl)
    intro _
    split
    · exact finishTiming
    · exact .pure _
  · exact .pure _

theorem recordMessage : Confined recordMessage := blind_beyond.recordMessage beyond_demo

theorem stopRecording : Confined stopRecording := blind_beyond.stopRecording beyond_demo

theorem beginRecording (path : Path) (track : Int32) : Confined (beginRecording path track) :=
  blind_beyond.beginRecording beyond_demo path track

theorem writeConfig : Confined writeConfig := blind_beyond.writeConfig

theorem saveTape : Confined saveTape := blind_beyond.saveTape

theorem finishTape : Confined finishTape := blind_beyond.finishTape

theorem hangUp : Confined hangUp := blind_beyond.hangUp

theorem demoNamed (usage : Text) : Confined (demoNamed usage) := blind_beyond.demoNamed usage

end Confined

end Client

end GameHost
