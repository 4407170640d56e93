import GameHost.Proofs.Client.Aside
import GameHost.Proofs.Client.Core

/-!
What is counted and measured of a session: how far signing on has come, where the demo loop stands, and how much waits
to be run, to be read and to be sent. Files and demos never touch any of it; letting go of a connection only takes the
signing on back.
-/
namespace GameHost.Client
open GameHost.Message (Buffer)

structure Gauges where
  quitting : Bool
  signon : Int
  nextDemo : Int
  demos : List Text
  pending : Text
  incoming : Buffer
  outgoing : Buffer

def gauges (s : Session) : Gauges :=
  { quitting := s.world.quitting
    signon := s.world.signon
    nextDemo := s.world.nextDemo
    demos := s.world.demos
    pending := s.shell.pending
    incoming := s.world.incoming
    outgoing := s.world.outgoing }

/-- An action that leaves it as it is, however it ends. -/
abbrev Level {α : Type} (act : Act Session α) : Prop := Act.Keeps gauges act

namespace Level

theorem change {f : Client → Client} (same : ∀ s : Session, gauges { s with world := f s.world } = gauges s) :
    Level (change f) := same

theorem onShell {f : Shell ClientCommand → Shell ClientCommand} (same : ∀ shell, (f shell).pending = shell.pending) :
    Level (Host.onShell f : Act Session Unit) :=
  fun s => congrArg (fun pending => { gauges s with pending }) (same s.shell)

theorem print (text : Text) : Level (print text) := onShell fun _ => rfl

theorem of_confined {α : Type} {act : Act Session α} (confined : Confined act) : Level act := confined.through gauges

end Level

theorem gauges_disconnect (s : Session) : gauges (Act.final (disconnect s)) = { gauges s with signon := 0 } := by
  have forgotten {m : Session} (same : gauges m = gauges s) : gauges (Act.final (change (fun c => { c with
      socket := none, connected := false, signon := 0 }) m)) = { gauges s with signon := 0 } :=
    congrArg (fun g : Gauges => { g with signon := 0 }) same
  unfold disconnect
  rw [ask_at]
  by_cases playing : s.world.playing = true
  · obtain ⟨m, ran, _⟩ := stopPlayback_spec s
    rw [if_pos playing, Act.bind_of_ok ran]
    exact forgotten ((Level.of_confined .stopPlayback).of_ok ran)
  rw [if_neg playing]
  by_cases connected : s.world.connected = true
  · rw [if_pos connected]
    by_cases recording : s.world.recording = true
    · obtain ⟨m, ran, _⟩ := stopRecording_spec s
      obtain ⟨n, hung, _⟩ := hangUp_spec m
      rw [if_pos recording, Act.bind_of_ok ran]
      dsimp only
      rw [Act.bind_of_ok hung]
      exact forgotten (((Level.of_confined .hangUp).of_ok hung).trans ((Level.of_confined .stopRecording).of_ok ran))
    · obtain ⟨n, hung, _⟩ := hangUp_spec s
      rw [if_neg recording]
      dsimp only
      rw [Act.bind_of_ok hung]
      exact forgotten ((Level.of_confined .hangUp).of_ok hung)
  · rw [if_neg connected]
    exact forgotten rfl

end GameHost.Client
