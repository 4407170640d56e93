import GameHost.Proofs.Client.Linked

/-!
The timing of demos: what it is made of, what a look into a demo does to it, what leaves it as it is, and the frames of the
host that are completed along a run.
-/
namespace GameHost
open GameHost.Message (Order)
open GameHost.Network (Socket Driver)

namespace Client

/-- What the timing of demos is made of. -/
structure Stopwatch where
  playing : Bool
  timing : Timing
  frames : Int32
  report : Option SpeedReport

def stopwatch (s : Session) : Stopwatch := ⟨s.world.playing, s.world.timing, s.world.frames, s.world.report⟩

/-- The demo can play on from elsewhere in its file. -/
theorem stopwatch_of_playing {s : Session} (playing : s.world.playing = true) (file : Reader) :
    stopwatch { s with world := { s.world with demo := .playing file } } = stopwatch s := by
  rw [stopwatch, stopwatch, playing]
  rfl

theorem frameDue_of_untimed {c : Client} (other : ¬ (c.timing.active = true ∧ c.signon = signons)) :
    (frameDue c).2 = c.timing := by
  unfold frameDue
  split
  · rfl
  · rename_i signed
    split
    · rename_i active
      exact absurd ⟨active, by simpa using signed⟩ other
    · rfl

theorem frameDue_of_timed {c : Client} (active : c.timing.active = true) (signed : c.signon = signons) :
    if c.frames = c.timing.lastFrame then frameDue c = (false, c.timing)
    else (frameDue c).1 = true ∧ (frameDue c).2.lastFrame = c.frames := by
  have complete : ¬ (c.signon != signons) = true := by simp [signed]
  unfold frameDue
  rw [if_neg complete, if_pos active]
  split
  · rename_i same
    rw [if_pos (by simpa using same)]
  · rename_i other
    rw [if_neg (by simpa using other)]
    refine ⟨rfl, ?_⟩
    dsimp only
    split <;> rfl

theorem frameDue_startFrame (c : Client) : (frameDue c).2.startFrame = c.timing.startFrame := by
  unfold frameDue
  repeat' split
  all_goals rfl

theorem frameDue_lastFrame (c : Client) :
    (frameDue c).2.lastFrame = c.timing.lastFrame ∨ (frameDue c).2.lastFrame = c.frames := by
  by_cases timed : c.timing.active = true ∧ c.signon = signons
  · have due := frameDue_of_timed timed.1 timed.2
    split at due
    · exact .inl (by rw [due])
    · exact .inr due.2
  · exact .inl (by rw [frameDue_of_untimed timed])

/-- An action that leaves the timing as it is, however it ends. -/
abbrev Untimed {α : Type} (act : Act Session α) : Prop := Act.Keeps stopwatch act

theorem blind_stopwatch : Blind stopwatch := fun _ _ _ _ _ => rfl

namespace Untimed

theorem change {f : Client → Client} (same : ∀ s : Session, stopwatch { s with world := f s.world } = stopwatch s) :
    Untimed (change f) := same

theorem onShell (f : Shell ClientCommand → Shell ClientCommand) : Untimed (Host.onShell f : Act Session Unit) :=
  fun _ => rfl

theorem print (text : Text) : Untimed (print text) := onShell _

theorem queueNextDemo : Untimed queueNextDemo := by
  apply Act.Keeps.ask_bind
  intro c
  split
  · split
    · exact .bind (print _) fun _ => change fun _ => rfl
    · exact .bind (onShell _) fun _ => change fun _ => rfl
  · exact .pure _

theorem startDemos : Untimed startDemos := by
  have loop (demos : List Text) : Untimed (do
      Client.print (Text.ofNat demos.length ++ " demo(s) in loop\n")
      Client.change fun c => { c with demos := demos.map (List.take Client.loopNameLimit) }
      let c ← ask
      if c.nextDemo != -1 && !c.playing then
        Client.change fun c => { c with nextDemo := 0 }
        Client.queueNextDemo
      else Client.change fun c => { c with nextDemo := -1 }) := by
    refine .bind (print _) fun _ => .bind (change fun _ => rfl) fun _ => .ask_bind fun c => ?_
    split
    · exact .bind (change fun _ => rfl) fun _ => queueNextDemo
    · exact change fun _ => rfl
  refine .line_bind fun line => ?_
  dsimp only
  split
  · exact .bind (print _) fun _ => loop _
  · exact loop _

theorem exchange {α : Type} (net : Driver) (request : Act Driver α) : Untimed (exchange net request) :=
  .bind (.within fun _ _ => rfl) fun _ => .bind blind_stopwatch.saveTape fun _ => .pure _

theorem receive (net : Driver) (socket : Socket) : Untimed (receive net socket) :=
  .bind (.within fun _ _ => rfl) fun _ => .bind blind_stopwatch.saveTape fun _ => .pure _

end Untimed

/-- The timing without whether a demo plays. -/
def dial (s : Session) : Stopwatch := { stopwatch s with playing := false }

theorem blind_dial : Blind dial := fun _ _ _ _ _ => rfl

theorem dial_demo (s : Session) (demo : Demo.Activity) (track : Int32) :
    dial { s with world := { s.world with demo, track } } = dial s := rfl

theorem dial_of_same {s t : Session} (same : stopwatch t = stopwatch s) : dial t = dial s :=
  congrArg (fun w : Stopwatch => { w with playing := false }) same

theorem stopwatch_of_dial {s t : Session} {playing : Bool} (same : dial t = dial s) (now : t.world.playing = playing) :
    stopwatch t = { stopwatch s with playing } := by
  rw [← now]
  exact congrArg (fun d : Stopwatch => { d with playing := t.world.playing }) same

/-- The frames completed in a turn. -/
def completed : Turn → Session → Nat
  | .frame seconds, s => if Act.ends (fun _ _ => true) (frame seconds s) then 1 else 0
  | _, _ => 0

/-- The frames completed while inputs come. -/
def completedAlong : List Input → Session → Nat
  | [], _ => 0
  | .host turn :: rest, s => completed turn s +
    match turn.act s with
    | .ok _ t => completedAlong rest t
    | .error _ _ => 0
  | .happen happening :: rest, s =>
    completedAlong rest { s with world := { s.world with net := s.world.net.map (Driver.onLoopback happening.change) } }

variable {s m t : Session}

theorem completed_of_ok {seconds : Double} (ran : frame seconds s = .ok () t) : completed (.frame seconds) s = 1 := by
  rw [completed, ran]
  rfl

theorem completed_of_error {seconds : Double} {fault : Fault} (ran : frame seconds s = .error fault t) :
    completed (.frame seconds) s = 0 := by
  rw [completed, ran]
  rfl

theorem completedAlong_of_ok {turn : Turn} {rest : List Input} (ran : turn.act s = .ok () t) :
    completedAlong (.host turn :: rest) s = completed turn s + completedAlong rest t := by
  rw [completedAlong, ran]

theorem completedAlong_of_error {turn : Turn} {rest : List Input} {fault : Fault} (ran : turn.act s = .error fault t) :
    completedAlong (.host turn :: rest) s = completed turn s := by
  rw [completedAlong, ran]
  rfl

/-- A frame that ends well, in its parts. -/
theorem frame_ok {seconds : Double} (ran : frame seconds s = .ok () t) : ∃ reads m u,
    approach seconds s = .ok reads m ∧ (if reads then readServer else pure ()) m = .ok () u ∧
      t = { u with world := { u.world with frames := u.world.frames + 1 } } := by
  rw [frame_eq] at ran
  obtain ⟨reads, m, came, ran⟩ := Act.bind_ok.1 ran
  cases reads with
  | true =>
    obtain ⟨_, u, read, ran⟩ := Act.bind_ok.1 ran
    cases ran
    exact ⟨true, m, u, came, read, rfl⟩
  | false =>
    cases ran
    exact ⟨false, m, m, came, rfl, rfl⟩

end Client

end GameHost
