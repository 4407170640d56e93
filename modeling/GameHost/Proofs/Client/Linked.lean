import GameHost.Proofs.Client.Walk

/-!
What always holds of the connection: with one, the client counts as connected, and no demo plays.
-/
namespace GameHost.Client

namespace Core

def playing (c : Core) : Bool := c.demo.isPlaying

def recording (c : Core) : Bool := c.demo.isRecording

variable {c d : Core}

theorem recording_of_playing (playing : c.playing = true) : c.recording = false := by
  unfold Core.playing at playing
  unfold Core.recording
  cases doing : c.demo with
  | playing file => rfl
  | idle => rfl
  | recording file =>
    rw [doing] at playing
    cases playing

theorem playing_of_recording (recording : c.recording = true) : c.playing = false := by
  cases playing : c.playing with
  | false => rfl
  | true =>
    rw [recording_of_playing playing] at recording
    cases recording

structure Linked (c : Core) : Prop where
  connected : c.socket.isSome = true → c.connected = true
  alone : c.playing = true → c.socket = none

theorem Linked.of_same (linked : c.Linked) (connected : d.connected = c.connected) (socket : d.socket = c.socket)
    (playing : d.playing = c.playing) : d.Linked := by
  constructor
  · rw [socket, connected]
    exact linked.connected
  · rw [playing, socket]
    exact linked.alone

theorem Linked.of_unlinked (socket : c.socket = none) : c.Linked := by
  refine ⟨?_, fun _ => socket⟩
  rw [socket]
  exact fun other => nomatch other

end Core

variable {s t : Session}

theorem Stopped.elsewhere (stopped : Stopped s t) :
    core t = { core s with demo := t.world.demo, disk := t.world.disk } := by
  have demo : (core t).demo = t.world.demo := rfl
  have disk : (core t).disk = t.world.disk := rfl
  rw [← demo, ← disk]
  cases stopped with
  | nothing _ same => rw [same]
  | finished _ _ now => rw [now]
  | failed _ _ now _ => rw [now]

theorem Stopped.silent (stopped : Stopped s t) : (core t).recording = false := by
  cases stopped with
  | nothing silent same =>
    rw [same]
    exact silent
  | finished _ _ now =>
    rw [now]
    rfl
  | failed _ _ now _ =>
    rw [now]
    rfl

theorem Stopped.playing (stopped : Stopped s t) : (core t).playing = (core s).playing := by
  cases stopped with
  | nothing _ same => rw [same]
  | finished recording _ now =>
    rw [now, Core.playing_of_recording (c := core s) (congrArg Demo.Activity.isRecording recording)]
    rfl
  | failed recording _ now _ =>
    rw [now, Core.playing_of_recording (c := core s) (congrArg Demo.Activity.isRecording recording)]
    rfl

theorem Dropped.gone (dropped : Dropped s t) :
    (core t).connected = false ∧ (core t).socket = none ∧ (core t).playing = false := by
  cases dropped with
  | played playing now =>
    rw [now]
    exact ⟨rfl, rfl, rfl⟩
  | recorded connected recording stopped now _ =>
    have quiet := stopped.playing.trans (Core.playing_of_recording recording)
    rw [now]
    exact ⟨rfl, rfl, quiet⟩
  | left quiet apart now =>
    rw [now]
    exact ⟨rfl, rfl, quiet⟩

theorem Played.unlinked {opened : Bool} (played : Played s t opened) : (core t).socket = none := by
  cases played with
  | opened dropped now _ =>
    rw [now]
    exact dropped.gone.2.1
  | missing dropped now _ =>
    rw [now]
    exact dropped.gone.2.1

theorem Move.linked (move : Move s t) (linked : (core s).Linked) : (core t).Linked := by
  cases move with
  | around same =>
    rw [same]
    exact linked
  | accept quiet now =>
    rw [now]
    exact ⟨fun _ => rfl, fun playing => nomatch quiet.symm.trans playing⟩
  | timing _ now =>
    rw [now]
    exact linked.of_same rfl rfl rfl
  | saveTape ran =>
    rw [(saveTape_spec ran).elsewhere]
    exact linked.of_same rfl rfl rfl
  | finishTape ran =>
    rw [(finishTape_spec ran).elsewhere]
    exact linked.of_same rfl rfl rfl
  | writeConfig ran =>
    obtain ⟨text, now⟩ := of_spec (writeConfig_spec s) ran
    rw [now]
    exact linked.of_same rfl rfl rfl
  | stopPlayback ran =>
    rw [of_spec (stopPlayback_spec s) ran]
    split
    · rename_i playing
      exact .of_unlinked (linked.alone playing)
    · exact linked
  | stopRecording ran =>
    have stopped := of_spec (stopRecording_spec s) ran
    exact linked.of_same (by rw [stopped.elsewhere]) (by rw [stopped.elsewhere]) stopped.playing
  | disconnect ran => exact .of_unlinked (of_spec (disconnect_spec s) ran).gone.2.1
  | playDemo ran => exact .of_unlinked (played_of_ok ran).unlinked
  | beginRecording _ ran =>
    cases of_spec (beginRecording_spec _ _ s) ran with
    | opened _ now =>
      rw [now]
      exact ⟨linked.connected, fun playing => nomatch playing⟩
    | refused _ now =>
      rw [now]
      exact linked.of_same rfl rfl rfl
  | recordMessage _ ran =>
    cases of_spec (recordMessage_spec s) ran with
    | nothing _ same =>
      rw [same]
      exact linked
    | kept _ _ now =>
      rw [now]
      exact ⟨linked.connected, fun playing => nomatch playing⟩
    | failed _ _ now _ =>
      rw [now]
      exact ⟨linked.connected, fun playing => nomatch playing⟩
  | demoMessage ran =>
    cases demoMessage_spec ran with
    | nothing same =>
      rw [same]
      exact linked
    | read playing now =>
      rw [now]
      exact linked.of_same rfl rfl (Eq.symm playing)
    | ended playing now =>
      rw [now]
      exact .of_unlinked (linked.alone playing)

end GameHost.Client
