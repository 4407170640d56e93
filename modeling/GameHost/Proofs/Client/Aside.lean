import GameHost.Proofs.Client.Beyond
import GameHost.Proofs.Message.Discipline

/-!
What stays as it is while the client works with its demo, its connection and its files: the message last received,
where files are searched, the text that waits to be run, the variables and the line being run. However a message is
received, the message can be as large afterwards as before.
-/
namespace GameHost
open GameHost.Message (Buffer)
open GameHost.Network (Socket Driver)

namespace Message

theorem Buffer.capacity_fill (data : Bytes) : Act.Keeps Buffer.capacity (Buffer.fill data) :=
  fun b => (replaced data b).steady.capacity

end Message

namespace Replay

theorem Player.capacity_receive (socket : Socket) :
    Act.Keeps (fun pair : Player × Buffer => pair.2.capacity) (Player.receive socket) := by
  have asked {α : Type} (act : Act Player α) : Act.Keeps (fun pair : Player × Buffer => pair.2.capacity) (Act.first act) :=
    Act.Keeps.first.through Buffer.capacity
  unfold Player.receive
  refine .bind (asked _) fun _ => .bind (asked _) fun kind => ?_
  dsimp only
  split
  · refine .bind (asked _) fun length => ?_
    split
    · exact .bind (.throw _) fun _ => .bind (asked _) fun _ => .bind (.second (Buffer.capacity_fill _)) fun _ =>
        .bind (asked _) fun _ => .pure _
    · exact .bind (asked _) fun _ => .bind (.second (Buffer.capacity_fill _)) fun _ => .bind (asked _) fun _ => .pure _
  · exact .bind (asked _) fun _ => .pure _

end Replay

namespace Network

theorem Driver.capacity_receive (socket : Socket) (net : Driver) (incoming : Buffer) :
    (Act.final (net.receive socket incoming)).2.capacity = incoming.capacity := by
  induction net with
  | loopback network =>
    unfold Driver.receive
    cases network.take socket.session with
    | mk delivery after =>
      cases delivery with
      | none => rfl
      | some delivery =>
        have same := Buffer.capacity_fill delivery.data incoming
        dsimp only
        cases filled : Buffer.fill delivery.data incoming with
        | ok _ m =>
          rw [filled] at same
          exact same
        | error fault m =>
          rw [filled] at same
          exact same
  | player recording =>
    have same := Replay.Player.capacity_receive socket (recording, incoming)
    unfold Driver.receive
    cases got : Replay.Player.receive socket (recording, incoming) with
    | ok kind pair =>
      rw [got] at same
      exact same
    | error fault pair =>
      rw [got] at same
      exact same
  | recorder tape inner ih =>
    unfold Driver.receive
    cases got : inner.receive socket incoming with
    | ok kind pair =>
      rw [got] at ih
      exact ih
    | error fault pair =>
      rw [got] at ih
      exact ih

end Network

namespace Client

structure Aside where
  incoming : Buffer
  folders : SearchPath
  pending : Text
  expansions : Nat
  vars : NameTable Variable
  line : Line

def aside (s : Session) : Aside :=
  { incoming := s.world.incoming
    folders := s.world.folders
    pending := s.shell.pending
    expansions := s.shell.expansions
    vars := s.shell.vars
    line := s.shell.line }

/-- An action that leaves them as they are, however it ends. -/
abbrev Beside {α : Type} (act : Act Session α) : Prop := Act.Keeps aside act

namespace Beside

variable {σ α : Type}

theorem change {f : Client → Client} (same : ∀ c : Client, ((f c).incoming, (f c).folders) = (c.incoming, c.folders)) :
    Beside (change f) :=
  fun s => congrArg (fun pair => { aside s with incoming := pair.1, folders := pair.2 }) (same s.world)

theorem print (text : Text) : Beside (print text) := fun _ => rfl

theorem within {view : Client → σ} {replace : σ → Client → Client} {act : Act σ α}
    (same : ∀ part c, ((replace part c).incoming, (replace part c).folders) = (c.incoming, c.folders)) :
    Beside (within view replace act) :=
  Act.Keeps.within fun part s =>
    congrArg (fun pair => { aside s with incoming := pair.1, folders := pair.2 }) (same part s.world)

theorem of_confined {act : Act Session α} (confined : Confined act) : Beside act := confined.through aside

theorem stopPlayback : Beside stopPlayback := of_confined .stopPlayback

theorem recordMessage : Beside recordMessage := of_confined .recordMessage

theorem stopRecording : Beside stopRecording := of_confined .stopRecording

theorem beginRecording (path : Path) (track : Int32) : Beside (beginRecording path track) :=
  of_confined (.beginRecording path track)

theorem writeConfig : Beside writeConfig := of_confined .writeConfig

theorem saveTape : Beside saveTape := of_confined .saveTape

theorem finishTape : Beside finishTape := of_confined .finishTape

theorem hangUp : Beside hangUp := of_confined .hangUp

theorem demoNamed (usage : Text) : Beside (demoNamed usage) := of_confined (.demoNamed usage)

theorem disconnect : Beside disconnect := by
  have forgotten : Beside (Client.change fun c => { c with socket := none, connected := false, signon := 0 }) :=
    change fun _ => rfl
  unfold Client.disconnect
  apply Act.Keeps.ask_bind
  intro c
  dsimp only
  split
  · exact .bind stopPlayback fun _ => forgotten
  · split
    · split
      · exact .bind stopRecording fun _ => .bind hangUp fun _ => forgotten
      · exact .bind hangUp fun _ => forgotten
    · exact forgotten

theorem playDemo (name : Text) : Beside (playDemo name) := by
  unfold Client.playDemo
  refine .bind disconnect fun _ => .bind (print _) fun _ => .ask_bind fun c => ?_
  split
  · exact .bind (print _) fun _ => .bind (change fun _ => rfl) fun _ => .pure _
  · exact .bind (change fun _ => rfl) fun _ => .bind (change fun _ => rfl) fun _ => .pure _

theorem forwardLine : Beside forwardLine := by
  unfold Client.forwardLine
  refine .ask_bind fun c => .line_bind fun line => ?_
  split
  · exact print _
  · split
    · exact within fun _ _ => rfl
    · exact .pure _

theorem play : Beside play := by
  apply Act.Keeps.bind (demoNamed _)
  intro named
  split
  · exact .bind (playDemo _) fun _ => .pure _
  · exact .pure _

theorem timeDemo : Beside timeDemo := by
  apply Act.Keeps.bind (demoNamed _)
  intro named
  split
  · apply Act.Keeps.bind (playDemo _)
    intro opened
    split
    · exact change fun _ => rfl
    · exact .pure _
  · exact .pure _

theorem stopDemo : Beside stopDemo := by
  apply Act.Keeps.ask_bind
  intro c
  split
  · exact .bind stopPlayback fun _ => disconnect
  · exact .pure _

theorem ifFromPlayer {act : Act Session Unit} (beside : Beside act) : Beside (ifFromPlayer act) := by
  refine .bind (fun _ => rfl : Beside fromPlayer) fun given => ?_
  split
  · exact beside
  · exact .pure _

end Beside

theorem capacity_fillIncoming (data : Bytes) : Act.Keeps (fun s : Session => s.world.incoming.capacity)
    (within Client.incoming (fun incoming c => { c with incoming }) (Buffer.fill data)) := by
  intro s
  have same := Buffer.capacity_fill data s.world.incoming
  change (Act.final (Act.within _ _ _ s)).world.incoming.capacity = _
  unfold Act.within
  dsimp only
  cases filled : Buffer.fill data s.world.incoming with
  | ok _ incoming =>
    rw [filled] at same
    exact same
  | error fault incoming =>
    rw [filled] at same
    exact same

theorem capacity_demoMessage : Act.Keeps (fun s : Session => s.world.incoming.capacity) demoMessage := by
  have stopped : Act.Keeps (fun s : Session => s.world.incoming.capacity) stopPlayback :=
    Beside.stopPlayback.through fun a => a.incoming.capacity
  unfold demoMessage
  apply Act.Keeps.ask_bind
  intro c
  refine .bind (fun _ => rfl) fun _ => ?_
  dsimp only
  split
  · refine .bind (fun _ => rfl) fun _ => ?_
    split
    · exact .throw _
    · exact .bind stopped fun _ => .pure _
    · exact .bind (capacity_fillIncoming _) fun _ => .bind (fun _ => rfl) fun _ => .pure _
  · exact .pure _

end Client

end GameHost
