import GameHost.Proofs.Client.Linked
import Mathlib.Data.List.Chain

/-!
What the client says of its connection. It agrees with the connection and the demo it has, until a recording is
begun while a demo plays: the demo is over then, and the client goes on as connected to nothing.
-/
namespace GameHost.Client

namespace Core

/-- Connected exactly with a connection or with a demo that plays, and timing a demo only while it plays. -/
structure Consistent (c : Core) : Prop where
  connected : c.connected = true ↔ c.socket.isSome = true ∨ c.playing = true
  timed : c.timed = true → c.playing = true

/-- A demo that played, with a recording in its place. -/
def Supplanted (c d : Core) : Prop := c.playing = true ∧ d.recording = true

variable {c d : Core}

theorem Consistent.untimed (consistent : c.Consistent) (quiet : c.playing = false) : c.timed = false := by
  cases timed : c.timed with
  | false => rfl
  | true =>
    have playing := consistent.timed timed
    rw [quiet] at playing
    cases playing

theorem Consistent.of_same (consistent : c.Consistent) (connected : d.connected = c.connected)
    (socket : d.socket = c.socket) (playing : d.playing = c.playing) (timed : d.timed = c.timed) : d.Consistent := by
  constructor
  · rw [connected, socket, playing]
    exact consistent.connected
  · rw [timed, playing]
    exact consistent.timed

theorem Consistent.of_gone (connected : c.connected = false) (socket : c.socket = none) (playing : c.playing = false)
    (timed : c.timed = false) : c.Consistent := by
  constructor
  · simp [connected, socket, playing]
  · simp [timed]

theorem not_supplanted_of_quiet (quiet : c.playing = false) : ¬ Supplanted c d := by
  rintro ⟨playing, _⟩
  rw [quiet] at playing
  cases playing

theorem not_supplanted_of_silent (silent : d.recording = false) : ¬ Supplanted c d := by
  rintro ⟨_, recording⟩
  rw [silent] at recording
  cases recording

theorem Consistent.supplanted (consistent : c.Consistent) (linked : c.Linked) (supplanted : Supplanted c d)
    (connected : d.connected = c.connected) (socket : d.socket = c.socket) : ¬ d.Consistent := by
  intro still
  have before : c.connected = true := consistent.connected.2 (.inr supplanted.1)
  rcases still.connected.1 (connected.trans before) with other | playing
  · rw [socket, linked.alone supplanted.1] at other
    cases other
  · rw [playing_of_recording supplanted.2] at playing
    cases playing

end Core

open GameHost.Client.Core (Supplanted)

def Keeps (s t : Session) : Prop := (core t).Consistent ∧ ¬ Supplanted (core s) (core t)

variable {s t : Session}

theorem Keeps.of_same (consistent : (core s).Consistent) (connected : (core t).connected = (core s).connected)
    (socket : (core t).socket = (core s).socket) (playing : (core t).playing = (core s).playing)
    (timed : (core t).timed = (core s).timed) : Keeps s t := by
  refine ⟨consistent.of_same connected socket playing timed, ?_⟩
  rintro ⟨was, becomes⟩
  rw [Core.recording_of_playing (playing.trans was)] at becomes
  cases becomes

theorem Keeps.of_files {disk : Disk} {tapeFile : Option Writer} (consistent : (core s).Consistent)
    (now : core t = { core s with disk, tapeFile }) : Keeps s t := by
  apply Keeps.of_same consistent
  · rw [now]
  · rw [now]
  · rw [now]
    rfl
  · rw [now]

theorem Stopped.keeps (stopped : Stopped s t) (consistent : (core s).Consistent) : Keeps s t := by
  apply Keeps.of_same consistent
  · rw [stopped.elsewhere]
  · rw [stopped.elsewhere]
  · exact stopped.playing
  · rw [stopped.elsewhere]

theorem Dropped.idle (dropped : Dropped s t) (consistent : (core s).Consistent) :
    (core t).timed = false ∧ ¬ Supplanted (core s) (core t) := by
  cases dropped with
  | played playing now =>
    rw [now]
    exact ⟨rfl, Core.not_supplanted_of_silent rfl⟩
  | recorded connected recording stopped now _ =>
    have quiet : (core s).playing = false := Core.playing_of_recording recording
    rw [now, stopped.elsewhere]
    exact ⟨consistent.untimed quiet, Core.not_supplanted_of_quiet quiet⟩
  | left quiet apart now =>
    rw [now]
    exact ⟨consistent.untimed quiet, Core.not_supplanted_of_quiet quiet⟩

theorem Dropped.keeps (dropped : Dropped s t) (consistent : (core s).Consistent) : Keeps s t := by
  obtain ⟨connected, socket, playing⟩ := dropped.gone
  obtain ⟨timed, apart⟩ := dropped.idle consistent
  exact ⟨.of_gone connected socket playing timed, apart⟩

theorem Played.keeps {opened : Bool} (played : Played s t opened) (consistent : (core s).Consistent) : Keeps s t := by
  cases played with
  | opened dropped now _ =>
    rw [Keeps, now]
    refine ⟨⟨?_, fun _ => rfl⟩, Core.not_supplanted_of_silent rfl⟩
    simp [Core.playing, Demo.Activity.isPlaying]
  | missing dropped now _ =>
    rw [Keeps, now]
    exact dropped.keeps consistent

theorem Looked.keeps (looked : Looked s t) (consistent : (core s).Consistent) (linked : (core s).Linked) :
    Keeps s t := by
  cases looked with
  | nothing same => exact .of_files consistent same
  | read playing now =>
    apply Keeps.of_same consistent
    · rw [now]
    · rw [now]
    · rw [now]
      exact Eq.symm playing
    · rw [now]
  | ended playing now =>
    rw [Keeps, now]
    exact ⟨.of_gone rfl (linked.alone playing) rfl rfl, Core.not_supplanted_of_silent rfl⟩

theorem Written.keeps {act : FileAct Unit} (written : Written act s t) (consistent : (core s).Consistent) :
    Keeps s t := by
  have quiet {file : Writer} (recording : s.world.demo = .recording file) : (core s).playing = false :=
    Core.playing_of_recording (congrArg Demo.Activity.isRecording recording)
  cases written with
  | nothing _ same => exact .of_files consistent same
  | kept recording _ now =>
    exact .of_same consistent (by rw [now]) (by rw [now]) (by rw [quiet recording, now]; rfl) (by rw [now])
  | failed recording _ now _ =>
    exact .of_same consistent (by rw [now]) (by rw [now]) (by rw [quiet recording, now]; rfl) (by rw [now])

theorem Begun.keeps_or {path : Path} {track : Int32} (begun : Begun path track s t)
    (consistent : (core s).Consistent) (linked : (core s).Linked) :
    Keeps s t ∨ Supplanted (core s) (core t) ∧ ¬ (core t).Consistent := by
  cases begun with
  | opened _ now =>
    cases playing : (core s).playing with
    | false =>
      exact .inl (.of_same consistent (by rw [now]) (by rw [now]) (by rw [playing, now]; rfl) (by rw [now]))
    | true =>
      have supplanted : Supplanted (core s) (core t) := ⟨playing, by rw [now]; rfl⟩
      exact .inr ⟨supplanted, consistent.supplanted linked supplanted (by rw [now]) (by rw [now])⟩
  | refused _ now => exact .inl (.of_files consistent now)

/-- A move keeps all well, or it turns a demo into a recording, and the client is in disagreement with itself. -/
theorem Move.keeps_or (move : Move s t) (consistent : (core s).Consistent) (linked : (core s).Linked) :
    Keeps s t ∨ Supplanted (core s) (core t) ∧ ¬ (core t).Consistent := by
  cases move with
  | beginRecording _ ran => exact (of_spec (beginRecording_spec _ _ s) ran).keeps_or consistent linked
  | around same => exact .inl (.of_files consistent same)
  | accept quiet now =>
    rw [Keeps, now]
    refine .inl ⟨⟨?_, ?_⟩, Core.not_supplanted_of_quiet quiet⟩
    · simp
    · intro timed
      exact nomatch (consistent.untimed quiet).symm.trans timed
  | timing playing now =>
    rw [Keeps, now]
    exact .inl ⟨⟨consistent.connected, fun _ => playing⟩,
      Core.not_supplanted_of_silent (Core.recording_of_playing playing)⟩
  | saveTape ran => exact .inl (.of_files consistent (saveTape_spec ran).elsewhere)
  | finishTape ran => exact .inl (.of_files consistent (finishTape_spec ran).elsewhere)
  | writeConfig ran =>
    obtain ⟨text, now⟩ := of_spec (writeConfig_spec s) ran
    exact .inl (.of_files consistent now)
  | stopPlayback ran =>
    have now := of_spec (stopPlayback_spec s) ran
    split at now
    · rename_i playing
      exact .inl (Looked.keeps (.ended playing (by rw [now])) consistent linked)
    · exact .inl (.of_files consistent now)
  | stopRecording ran => exact .inl ((of_spec (stopRecording_spec s) ran).keeps consistent)
  | disconnect ran => exact .inl ((of_spec (disconnect_spec s) ran).keeps consistent)
  | playDemo ran => exact .inl ((played_of_ok ran).keeps consistent)
  | recordMessage _ ran => exact .inl ((of_spec (recordMessage_spec s) ran).keeps consistent)
  | demoMessage ran => exact .inl ((demoMessage_spec ran).keeps consistent linked)

/-- All is well along a trail for as long as no recording takes the place of a demo. -/
theorem Trail.consistent_iff {trail : List Session} (leads : Trail s trail t) (consistent : (core s).Consistent)
    (linked : (core s).Linked) :
    (∀ u ∈ trail, (core u).Consistent) ↔ trail.IsChain fun u v => ¬ Supplanted (core u) (core v) := by
  induction leads with
  | here => simp [consistent]
  | @step s m t later move onward ih =>
    obtain ⟨rest, rfl⟩ : ∃ rest, later = m :: rest := by cases onward <;> exact ⟨_, rfl⟩
    rw [List.isChain_cons_cons, List.forall_mem_cons]
    rcases move.keeps_or consistent linked with ⟨still, apart⟩ | ⟨supplanted, wrong⟩
    · rw [ih still (move.linked linked)]
      constructor
      · exact fun both => ⟨apart, both.2⟩
      · exact fun both => ⟨consistent, both.2⟩
    · constructor
      · exact fun all => absurd (all.2 m List.mem_cons_self) wrong
      · exact fun none => absurd supplanted none.1

/-- Every run goes by moves from state to state, and the client is consistent in all of these states exactly if in
none of the moves a recording takes the place of a demo that plays. -/
theorem consistent_iff_no_demo_supplanted {s : Session} (fresh : Fresh s) :
    (∀ inputs, Course s (Input.states inputs s)) ∧ ∀ trail t, Trail s trail t →
      ((∀ u ∈ trail, (core u).Consistent) ↔ trail.IsChain fun u v => ¬ Supplanted (core u) (core v)) := by
  have quiet : (core s).playing = false := congrArg Demo.Activity.isPlaying fresh.idle
  have consistent : (core s).Consistent := .of_gone fresh.connected fresh.socket quiet fresh.timed
  have linked : (core s).Linked := .of_unlinked fresh.socket
  exact ⟨fun inputs => Walks.states inputs fresh.ready, fun trail t leads => leads.consistent_iff consistent linked⟩

/-- The demo is played, and a recording with a map is begun before it ends. -/
def supplanting : List Input := [.host (.run "play a" .player), .host (.run "record r m" .player)]

theorem supplanting_inconsistent : ∃ states t trail, Input.states supplanting demoStart = .ok states t ∧
    Trail demoStart trail t ∧ t.world.connected = true ∧ t.world.socket = none ∧ t.world.playing = false ∧
    ((∀ u ∈ trail, (core u).Consistent) ↔ trail.IsChain fun u v => ¬ Supplanted (core u) (core v)) := by
  have fine : Act.ends (fun _ t => t.world.connected && t.world.socket.isNone && !t.world.playing)
      (Input.states supplanting demoStart) = true := by decide +kernel
  obtain ⟨states, t, ran, wrong⟩ := Act.ok_of_ends fine
  obtain ⟨runs, iff⟩ := consistent_iff_no_demo_supplanted fresh_demoStart
  have course := runs supplanting
  rw [ran] at course
  obtain ⟨trail, leads⟩ : Moves demoStart t := by
    cases course with
    | ok moves => exact moves
  simp only [Bool.and_eq_true, Option.isNone_iff_eq_none, Bool.not_eq_true'] at wrong
  obtain ⟨⟨connected, alone⟩, quiet⟩ := wrong
  exact ⟨states, t, trail, ran, leads, connected, alone, quiet, iff trail t leads⟩

end GameHost.Client
