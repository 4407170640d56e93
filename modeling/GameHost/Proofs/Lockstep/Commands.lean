import GameHost.Proofs.Lockstep.Track

/-!
The shell and the client's commands, over a recorder and over a player of its recording. Of all of them only
hanging up speaks to the driver, and what it says is not recorded.
-/
namespace GameHost.Lockstep
open GameHost.Client (ask change)
open GameHost.Message (Buffer)
open GameHost.Network (Driver)
open GameHost.Replay (Recorder)

namespace Blind

theorem recordingFailed (fault : StorageFault) : Blind (Client.recordingFailed fault) := by
  unfold Client.recordingFailed
  exact bind (print _) fun _ => change (fun _ _ _ => rfl) (fun _ => rfl)

theorem onDemoFile (file : Writer) (act : FileAct Unit) : Blind (Client.onDemoFile file act) := by
  unfold Client.onDemoFile
  refine ask_bind (fun _ _ _ => rfl) fun c => ?_
  split
  · exact bind (change (fun _ _ _ => rfl) (fun _ => rfl)) fun _ => pure none
  · exact bind (change (fun _ _ _ => rfl) (fun _ => rfl)) fun _ => pure (some _)

theorem stopRecording : Blind Client.stopRecording := by
  unfold Client.stopRecording
  refine ask_bind (fun _ _ _ => rfl) fun c => ?_
  split
  · apply bind (onDemoFile _ _)
    intro failure
    split
    · exact bind (change (fun _ _ _ => rfl) (fun _ => rfl)) fun _ => print _
    · exact recordingFailed _
  · exact print _

theorem finishTiming : Blind Client.finishTiming := by
  unfold Client.finishTiming
  refine ask_bind (fun _ _ _ => rfl) fun c => ?_
  exact bind (change (fun _ _ _ => rfl) (fun _ => rfl)) fun _ => print _

theorem stopPlayback : Blind Client.stopPlayback := by
  unfold Client.stopPlayback
  refine ask_bind (fun _ _ _ => rfl) fun c => ?_
  split
  · refine bind (change (fun _ _ _ => rfl) (fun _ => rfl)) fun _ => ?_
    split
    · exact finishTiming
    · exact pure _
  · exact pure _

theorem queueNextDemo : Blind Client.queueNextDemo := by
  unfold Client.queueNextDemo
  refine ask_bind (fun _ _ _ => rfl) fun c => ?_
  split
  · split
    · exact bind (print _) fun _ => change (fun _ _ _ => rfl) (fun _ => rfl)
    · exact bind (onShell _) fun _ => change (fun _ _ _ => rfl) (fun _ => rfl)
  · exact pure _

theorem writeConfig : Blind Client.writeConfig := by
  unfold Client.writeConfig
  refine get_bind (fun _ _ _ => rfl) fun s => ?_
  dsimp only
  split
  · exact change (fun _ _ _ => rfl) (fun _ => rfl)
  · exact bind (change (fun _ _ _ => rfl) (fun _ => rfl)) fun _ => print _

theorem beginRecording (path : Path) (track : Int32) : Blind (Client.beginRecording path track) := by
  unfold Client.beginRecording
  refine bind (print _) fun _ => ask_bind (fun _ _ _ => rfl) fun c => ?_
  split
  · exact bind (change (fun _ _ _ => rfl) (fun _ => rfl)) fun _ => change (fun _ _ _ => rfl) (fun _ => rfl)
  · exact bind (change (fun _ _ _ => rfl) (fun _ => rfl)) fun _ => print _

theorem forwardLine : Blind Client.forwardLine := by
  unfold Client.forwardLine
  refine ask_bind (fun _ _ _ => rfl) fun c => line_bind fun line => ?_
  split
  · exact print _
  · split
    · exact within (fun _ _ _ => rfl) (fun _ _ _ _ => rfl) (fun _ _ => rfl)
    · exact pure _

theorem demoNamed (usage : Text) : Blind (Client.demoNamed usage) := by
  unfold Client.demoNamed
  apply line_bind
  intro line
  split
  · exact pure _
  · exact bind (print _) fun _ => pure none

theorem fromPlayer : Blind Client.fromPlayer :=
  ⟨fun _ _ _ => rfl, fun _ _ _ ran => by cases ran; rfl⟩

theorem runScript : Blind (Host.runScript : Act Session Unit) := by
  unfold Host.runScript
  refine get_bind (fun _ _ _ => rfl) fun s => ?_
  split
  · exact print _
  · dsimp only
    split
    · exact bind (print _) fun _ => onShell _
    · exact print _

theorem hostForwardLine : Blind (Host.forwardLine : Act Session Unit) := by
  unfold Host.forwardLine
  refine get_bind (fun _ _ _ => rfl) fun s => ?_
  split
  · exact forwardLine
  · exact pure _

theorem runUnknown : Blind (Host.runUnknown : Act Session Unit) := by
  unfold Host.runUnknown
  refine get_bind (fun _ _ _ => rfl) fun s => ?_
  dsimp only
  split
  · exact forwardLine
  · exact print _

end Blind

variable {left : Bytes → Prop} {count : Nat}

theorem hangUp_over (s : Session) (net : Driver) (incoming : Buffer) :
    Client.hangUp (s.over net incoming) = .ok () (s.over
      (s.world.socket.elim net fun socket => (net.sendUnreliable socket Client.farewell).2.close socket)
      incoming) := by
  cases socket : s.world.socket with
  | none => simp [Client.hangUp, ask, Host.over, Client.over, socket]
  | some socket => simp [Client.hangUp, ask, change, Host.over, Client.over, socket]

namespace Tracks

/-- What the recorder does about a farewell is not recorded, and a player ignores it. -/
theorem hangUp : Tracks left count Client.hangUp := by
  intro u steady _ t ran
  cases here : u.session.world.socket with
  | none =>
    rw [Live.whole, hangUp_over, here] at ran
    cases ran
    refine ⟨u, rfl, rfl, rfl, steady, [], by simp, ?_⟩
    intro i later p incoming beside holds
    exact ⟨p, incoming, by rw [hangUp_over, here]; rfl, beside, holds⟩
  | some socket =>
    rw [Live.whole, hangUp_over, here] at ran
    cases ran
    let network := (u.recorder.network.send socket.session Client.farewell).close socket.session
    refine ⟨⟨u.session, ⟨u.recorder.tape, network⟩, u.incoming⟩, rfl, rfl, rfl, ?_, [], by simp, ?_⟩
    · refine ⟨steady.sound.of_network rfl fun s member => member, steady.room, ?_⟩
      exact fun delivery member => steady.inbox delivery (List.mem_filter.1 member).1
    · intro i later p incoming beside holds
      refine ⟨p, incoming, by rw [hangUp_over, here]; rfl, ?_, holds⟩
      exact ⟨beside.follows.of_tape rfl, beside.capacity, beside.content⟩

theorem disconnect : Tracks left count Client.disconnect := by
  have forget : Tracks left count (change fun c => { c with socket := none, connected := false, signon := 0 }) :=
    of_blind (.change (fun _ _ _ => rfl) (fun _ => rfl))
  unfold Client.disconnect
  refine ask_bind (fun _ _ _ => rfl) fun c => ?_
  dsimp only
  split
  · exact bind (of_blind .stopPlayback) fun _ => forget
  · split
    · split
      · exact bind (of_blind .stopRecording) fun _ => bind hangUp fun _ => forget
      · exact bind hangUp fun _ => forget
    · exact forget

theorem gameError (message : Text) : Tracks left count (Client.gameError message) := by
  unfold Client.gameError
  apply bind (of_blind (.print _))
  intro _
  exact bind (of_blind (.change (fun _ _ _ => rfl) (fun _ => rfl))) fun _ => disconnect

theorem endGame : Tracks left count Client.endGame := by
  unfold Client.endGame
  exact bind disconnect fun _ => of_blind .queueNextDemo

theorem record {run : Text → Source → Act Session Unit} (runs : ∀ text source, Tracks left count (run text source)) :
    Tracks left count (Client.record run) := by
  unfold Client.record
  refine of_line fun line => ask_bind (fun _ _ _ => rfl) fun c => ?_
  split
  · exact of_blind (.print _)
  · have rest (path : Path) : Tracks left count
        (if 2 < line.count then (do run ("map " ++ line.word 2) .player; Client.beginRecording path (Client.trackAsked line))
          else Client.beginRecording path (Client.trackAsked line)) := by
      split
      · exact bind (runs _ _) fun _ => of_blind (.beginRecording _ _)
      · exact of_blind (.beginRecording _ _)
    dsimp only
    split
    · exact bind (of_blind (.print _)) fun _ => rest _
    · exact rest _

theorem playDemo (name : Text) : Tracks left count (Client.playDemo name) := by
  unfold Client.playDemo
  refine bind disconnect fun _ => bind (of_blind (.print _)) fun _ => ?_
  refine ask_bind (fun _ _ _ => by simp only [Client.over]) fun c => ?_
  split
  · apply bind (of_blind (.print _))
    intro _
    exact bind (of_blind (.change (fun _ _ _ => rfl) (fun _ => rfl))) fun _ => of_blind (.pure false)
  · -- what stands in the demo's first line does not matter here, and must not be worked out
    generalize Reader.line _ _ = opened
    dsimp only
    refine bind (of_blind (.change (fun _ _ _ => rfl) (fun _ => rfl))) fun _ => ?_
    exact bind (of_blind (.change (fun _ _ _ => rfl) (fun _ => rfl))) fun _ => of_blind (.pure true)

theorem play : Tracks left count Client.play := by
  unfold Client.play
  apply bind (of_blind (.demoNamed _))
  intro named
  split
  · exact bind (playDemo _) fun _ => of_blind (.pure _)
  · exact of_blind (.pure _)

theorem timeDemo : Tracks left count Client.timeDemo := by
  unfold Client.timeDemo
  apply bind (of_blind (.demoNamed _))
  intro named
  split
  · apply bind (playDemo _)
    intro opened
    split
    · exact of_blind (.change (fun _ _ _ => rfl) (fun _ => rfl))
    · exact of_blind (.pure _)
  · exact of_blind (.pure _)

theorem stopDemo : Tracks left count Client.stopDemo := by
  unfold Client.stopDemo
  refine ask_bind (fun _ _ _ => rfl) fun c => ?_
  split
  · exact bind (of_blind .stopPlayback) fun _ => disconnect
  · exact of_blind (.pure _)

theorem resumeDemos : Tracks left count Client.resumeDemos := by
  unfold Client.resumeDemos
  refine bind (of_blind (.change (fun _ _ _ => rfl) (fun _ => rfl))) fun _ => ?_
  exact bind disconnect fun _ => of_blind .queueNextDemo

theorem loopDemos (demos : List Text) : Tracks left count (do
    Client.print (Text.ofNat demos.length ++ " demo(s) in loop\n")
    change fun c => { c with demos := demos.map (List.take Client.loopNameLimit) }
    let c ← ask
    if c.nextDemo != -1 && !c.playing then
      change fun c => { c with nextDemo := 0 }
      Client.queueNextDemo
    else change fun c => { c with nextDemo := -1 }) := by
  apply bind (of_blind (.print _))
  intro _
  refine bind (of_blind (.change (fun _ _ _ => rfl) (fun _ => rfl))) fun _ => ?_
  refine ask_bind (fun _ _ _ => rfl) fun c => ?_
  split
  · exact bind (of_blind (.change (fun _ _ _ => rfl) (fun _ => rfl))) fun _ => of_blind .queueNextDemo
  · exact of_blind (.change (fun _ _ _ => rfl) (fun _ => rfl))

theorem startDemos : Tracks left count Client.startDemos := by
  unfold Client.startDemos
  apply of_line
  intro line
  dsimp only
  split
  · exact bind (of_blind (.print _)) fun _ => loopDemos _
  · exact loopDemos _

theorem ifFromPlayer {act : Act Session Unit} (tracks : Tracks left count act) :
    Tracks left count (Client.ifFromPlayer act) := by
  unfold Client.ifFromPlayer
  apply bind (of_blind .fromPlayer)
  intro given
  split
  · exact tracks
  · exact of_blind (.pure _)

theorem perform {run : Text → Source → Act Session Unit} (runs : ∀ text source, Tracks left count (run text source))
    (command : ClientCommand) : Tracks left count (Client.perform run command) := by
  cases command with
  | disconnect => exact disconnect
  | quit => exact ifFromPlayer (of_blind (.change (fun _ _ _ => rfl) (fun _ => rfl)))
  | writeConfig => exact ifFromPlayer (of_blind .writeConfig)
  | record => exact ifFromPlayer (record runs)
  | stop => exact ifFromPlayer (of_blind .stopRecording)
  | play => exact ifFromPlayer play
  | timeDemo => exact ifFromPlayer timeDemo
  | startDemos => exact startDemos
  | demos => exact resumeDemos
  | stopDemo => exact stopDemo

section

variable {run : Text → Source → Act Session Unit} (runs : ∀ text source, Tracks left count (run text source))

include runs

theorem runProbe (kind : Probe) : Tracks left count (Host.runProbe run kind : Act Session Unit) := by
  cases kind with
  | report => exact of_blind (.onShell fun s => s.print s.callText)
  | fail => exact of_blind (.throw _)
  | queue => exact of_blind (.onShell fun s => s.insertText (s.line.tail ++ ['\n']))
  | relay => exact get_bind (fun _ _ _ => rfl) fun s => runs _ _
  | forget => exact of_blind (.onShell fun s => s.removeCommand (s.line.word 1))

theorem runAction (action : Action ClientCommand) :
    Tracks left count (Host.runAction run action : Act Session Unit) := by
  cases action with
  | builtin command => exact of_blind (.onShell _)
  | script => exact of_blind .runScript
  | forward => exact of_blind .hostForwardLine
  | probe kind => exact runProbe runs kind
  | own command => exact perform runs command

end

theorem runLineWithin (depth : Nat) (text : Text) (source : Source) :
    Tracks left count (Host.runLineWithin depth text source : Act Session Unit) := by
  induction depth generalizing text source with
  | zero => exact of_blind (.throw _)
  | succ depth ih =>
    unfold Host.runLineWithin
    refine bind (of_blind (.onShell _)) fun _ => get_bind (fun _ _ _ => rfl) fun s => ?_
    split
    · exact of_blind (.pure _)
    · exact runAction ih _
    · exact of_blind (.onShell _)
    · exact of_blind (.onShell _)
    · exact of_blind .runUnknown

theorem runLine (text : Text) (source : Source) : Tracks left count (Host.runLine text source : Act Session Unit) :=
  runLineWithin _ text source

theorem runPending (budget : Nat) : Tracks left count (Host.runPending budget : Act Session Unit) := by
  induction budget with
  | zero =>
    unfold Host.runPending
    refine get_bind (fun _ _ _ => rfl) fun s => ?_
    split
    · exact of_blind (.pure _)
    · exact of_blind (.throw _)
  | succ budget ih =>
    unfold Host.runPending
    apply bind (of_blind (.askShell _))
    intro line
    split
    · exact of_blind (.pure _)
    · split
      · exact ih
      · refine bind (runLine _ _) fun _ => get_bind (fun _ _ _ => rfl) fun s => ?_
        split
        · exact of_blind (.onShell _)
        · exact ih

theorem tick : Tracks left count (Host.tick : Act Session Unit) := by
  unfold Host.tick
  exact bind (of_blind (.onShell _)) fun _ => runPending _

end Tracks

end GameHost.Lockstep
