import GameHost.Proofs.Client.Forwarding
import GameHost.Proofs.Client.Journal
import GameHost.Proofs.Client.Passage

/-!
What a journal tells is what happens. A session that keeps one runs like the session that keeps none, and goes by steps:
calls in passing, of which only the report of a timed demo is noted, and what is noted otherwise, each of which is there
exactly as the journal says.
-/
namespace GameHost.Client
open GameHost.Message (Buffer)
open GameHost.Network (Socket Driver Ledger)
open Logged

/-- A place in a list that goes on by one more is the last one, or a place in the list. -/
theorem split_of_append_one {α : Type} {log early later : List α} {last here : α}
    (split : log ++ [last] = early ++ here :: later) :
    log = early ∧ last = here ∨ ∃ more, log = early ++ here :: more := by
  rcases List.eq_nil_or_concat later with rfl | ⟨more, other, rfl⟩
  · obtain ⟨same, one⟩ := List.append_inj' split rfl
    exact .inl ⟨same, (List.cons.inj one).1⟩
  · have regrouped : log ++ [last] = (early ++ here :: more) ++ [other] := by simp [split]
    exact .inr ⟨more, (List.append_inj' regrouped rfl).1⟩

/-- There are a driver and a connection, and whole commands wait for them. -/
structure Waits (s : Session) (net : Driver) (socket : Socket) : Prop where
  there : s.world.net = some net
  linked : s.world.socket = some socket
  whole : s.world.outgoing.overflowed = false
  nonempty : s.world.outgoing.size ≠ 0

theorem Waits.of_outlet {s t : Session} {net after : Driver} {socket : Socket} (waits : Waits s net socket)
    (same : outlet t = outlet s) (there : t.world.net = some after) : Waits t after socket := by
  have queue : t.world.outgoing = s.world.outgoing := congrArg Outlet.queue same
  obtain ⟨_, linked, whole, nonempty⟩ := waits
  rw [← queue] at whole nonempty
  exact ⟨there, (congrArg Outlet.socket same).trans linked, whole, nonempty⟩

/-- Hand what waits to the driver, as it is after it was asked whether it is ready. -/
def offering (asked : Driver) (socket : Socket) (payload : Bytes) : Act Session Unit := do
  let net := (← ask).net.getD asked
  if (← exchange net (Driver.send socket payload)) == -1 then
    gameError "CL_WriteToServer: lost server connection"
  else change fun c => { c with outgoing := c.outgoing.clear }

/-- What is noted between two moments of a session, apart from the reports of timed demos. -/
inductive Happened : Session → Event → Session → Prop where
  | queued {s t : Session} {text : Text} {queue : Buffer} (live : s.world.connected = true) (quiet : s.world.playing = false)
      (line : s.shell.line = Line.ofText text) (added : addCommand s.shell.line s.world.outgoing = .ok () queue)
      (now : outlet t = { outlet s with queue }) (untimed : stopwatch t = stopwatch s) :
      Happened s (.queued s.world.socket s.shell.line) t
  | dropped {s t : Session} (spilt : s.world.outgoing.overflowed = true)
      (now : outlet t = { outlet s with queue := s.world.outgoing.clear }) (untimed : stopwatch t = stopwatch s) :
      Happened s .dropped t
  | offered {s : Session} {net : Driver} {socket : Socket} (waits : Waits s net socket) :
      Happened s (.offered socket s.world.outgoing.written) s
  | answered {s m t : Session} {net : Driver} {socket : Socket} {answer : Int32} (waits : Waits s net socket)
      (ran : exchange net (Driver.send socket s.world.outgoing.written) s = .ok answer m)
      (now : outlet t = if answer = -1 then outlet m else { outlet m with queue := s.world.outgoing.clear })
      (untimed : stopwatch t = stopwatch s) : Happened s (.answered socket s.world.outgoing.written answer) t
  | joined {s t : Session} {socket : Socket}
      (now : outlet t = { outlet s with queue := s.world.outgoing.clear, socket := some socket })
      (untimed : stopwatch t = stopwatch s) : Happened s (.joined socket) t
  | timed {s : Session} (playing : s.world.playing = true) :
      Happened s .timed { s with world.timing := ⟨true, -1, s.world.frames, s.world.clock⟩ }
  | supplanted {s t : Session} (timed : s.world.timing.active = true) (playing : s.world.playing = true)
      (recording : t.world.recording = true) (now : outlet t = outlet s) (same : dial t = dial s) : Happened s .supplanted t
  | counted {s : Session} : Happened s .counted { s with world.frames := s.world.frames + 1 }

/-- A step of a session that keeps a journal. Messages are read and frames completed only in a whole frame. -/
inductive Advance (whole : Bool) (h t : LoggedSession) : Prop where
  | called {reading : Bool} (passage : Passage reading (plain h) (plain t)) (within : reading = true → whole = true)
      (log : t.world.log = h.world.log ++ remarks (plain h) (plain t))
  | noted {event : Event} (happened : Happened (plain h) event (plain t)) (within : event = .counted → whole = true)
      (log : t.world.log = h.world.log ++ [⟨event, t.world.client.outgoing⟩])

inductive Advances (whole : Bool) : LoggedSession → LoggedSession → Prop where
  | here {h : LoggedSession} : Advances whole h h
  | step {h m t : LoggedSession} (first : Advance whole h m) (onward : Advances whole m t) : Advances whole h t

/-- What becomes of a session where its run fails: nothing, or a line could not be queued. -/
structure Stuck (h t : LoggedSession) : Prop where
  queue : t.world.client.outgoing = h.world.client.outgoing ∨
    ∃ fault, addCommand h.shell.line h.world.client.outgoing = .error fault t.world.client.outgoing
  untimed : stopwatch (plain t) = stopwatch (plain h)
  log : t.world.log = h.world.log

/-- An outcome that steps lead to, up to where it fails. -/
inductive Reached (whole : Bool) (h : LoggedSession) {α : Type} : EStateM.Result Fault LoggedSession α → Prop
  | ok {a : α} {t : LoggedSession} (path : Advances whole h t) : Reached whole h (.ok a t)
  | error {fault : Fault} {m t : LoggedSession} (path : Advances whole h m) (stuck : Stuck m t) :
      Reached whole h (.error fault t)

/-- An outcome without the journal. -/
def erased {α : Type} : EStateM.Result Fault LoggedSession α → EStateM.Result Fault Session α
  | .ok a h => .ok a (plain h)
  | .error fault h => .error fault (plain h)

/-- With a journal an action goes as it does without, and by steps. -/
structure Mirrors (whole : Bool) (h : LoggedSession) {α : Type} (logged : Act LoggedSession α) (act : Act Session α) :
    Prop where
  alike : erased (logged h) = act (plain h)
  reached : Reached whole h (logged h)

variable {whole : Bool} {h m t : LoggedSession}

namespace Advances

theorem single (step : Advance whole h t) : Advances whole h t := .step step .here

theorem trans (path : Advances whole h m) (onward : Advances whole m t) : Advances whole h t := by
  induction path with
  | here => exact onward
  | step first _ ih => exact .step first (ih onward)

end Advances

theorem Reached.after {α : Type} {outcome : EStateM.Result Fault LoggedSession α} (path : Advances whole h m)
    (reached : Reached whole m outcome) : Reached whole h outcome := by
  cases reached with
  | ok onward => exact .ok (path.trans onward)
  | error onward stuck => exact .error (path.trans onward) stuck

theorem Stuck.refl (h : LoggedSession) : Stuck h h := ⟨.inl rfl, rfl, rfl⟩

/-- The session with its journal, after a call. -/
def noting (h : LoggedSession) (t : Session) : LoggedSession := ⟨t.shell, t.world, h.world.log ++ remarks (plain h) t⟩

theorem plainly_of_ok {α : Type} {act : Act Session α} {a : α} {t : Session} (ran : act (plain h) = .ok a t) :
    plainly act h = .ok a (noting h t) := Act.within_of_ok ran

theorem plainly_of_error {α : Type} {act : Act Session α} {fault : Fault} {t : Session}
    (ran : act (plain h) = .error fault t) : plainly act h = .error fault (noting h t) := Act.within_of_error ran

theorem plainly_ok {α : Type} {act : Act Session α} {a : α} (ran : plainly act h = .ok a t) :
    ∃ s, act (plain h) = .ok a s ∧ t = noting h s := Act.within_ok.1 ran

theorem remarks_of_active {s t : Session} (active : t.world.timing.active = s.world.timing.active) : remarks s t = [] := by
  unfold remarks
  rw [active, Bool.and_not_self]
  rfl

theorem remarks_of_same {s t : Session} (same : stopwatch t = stopwatch s) : remarks s t = [] :=
  remarks_of_active (congrArg (fun w => w.timing.active) same)

theorem noting_of_same {s : Session} (untimed : stopwatch s = stopwatch (plain h)) :
    noting h s = ⟨s.shell, s.world, h.world.log⟩ := by
  rw [noting, remarks_of_same untimed, List.append_nil]

/-- A change that is noted after it is made. -/
theorem change_noted {f : Client → Client} (event : Event)
    (unremarked : remarks (plain h) { plain h with world := f h.world.client } = []) :
    (do
      plainly (Client.change f)
      note event : Act LoggedSession Unit) h =
      .ok () ⟨h.shell, f h.world.client, h.world.log ++ [⟨event, (f h.world.client).outgoing⟩]⟩ := by
  let t : Session := { plain h with world := f h.world.client }
  have ran : Client.change f (plain h) = .ok () t := rfl
  have settled : noting h t = ⟨t.shell, t.world, h.world.log⟩ := by rw [noting, unremarked, List.append_nil]
  rw [Act.bind_of_ok (plainly_of_ok ran), settled]
  rfl

namespace Mirrors

variable {α β : Type}

theorem pure (a : α) : Mirrors whole h (pure a) (pure a) := ⟨rfl, .ok .here⟩

theorem bind {logged : Act LoggedSession α} {act : Act Session α} {next : α → Act LoggedSession β}
    {onward : α → Act Session β} (first : Mirrors whole h logged act)
    (second : ∀ a t, logged h = .ok a t → Mirrors whole t (next a) (onward a)) :
    Mirrors whole h (logged >>= next) (act >>= onward) := by
  obtain ⟨alike, reached⟩ := first
  cases ran : logged h with
  | ok a m =>
    rw [ran] at alike reached
    have there := second a m ran
    refine ⟨?_, ?_⟩
    · rw [Act.bind_of_ok ran, Act.bind_of_ok alike.symm]
      exact there.alike
    · rw [Act.bind_of_ok ran]
      cases reached with
      | ok path => exact there.reached.after path
  | error fault m =>
    rw [ran] at alike reached
    refine ⟨?_, ?_⟩
    · rw [Act.bind_of_error ran, Act.bind_of_error alike.symm]
      rfl
    · rw [Act.bind_of_error ran]
      cases reached with
      | error path stuck => exact .error path stuck

theorem get_bind {next : LoggedSession → Act LoggedSession α} {onward : Session → Act Session α}
    (there : Mirrors whole h (next h) (onward (plain h))) : Mirrors whole h (get >>= next) (get >>= onward) :=
  ⟨there.alike, there.reached⟩

theorem ask_bind {next : Client → Act LoggedSession α} {onward : Client → Act Session α}
    (there : Mirrors whole h (next h.world.client) (onward h.world.client)) :
    Mirrors whole h (Logged.ask >>= next) (Client.ask >>= onward) :=
  ⟨there.alike, there.reached⟩

theorem of_called {reading : Bool} {logged : Act LoggedSession α} {act : Act Session α} {a : α} {s : Session}
    (ran : act (plain h) = .ok a s) (passage : Passage reading (plain h) s) (within : reading = true → whole = true)
    (noted : logged h = .ok a (noting h s)) : Mirrors whole h logged act := by
  refine ⟨?_, ?_⟩
  · rw [noted, ran]
    rfl
  · rw [noted]
    exact .ok (.single (.called passage within rfl))

/-- What a call notes of itself is noted after it. -/
theorem of_noted {logged : Act LoggedSession Unit} {act : Act Session Unit} {event : Event} {s : Session}
    (ran : act (plain h) = .ok () s) (happened : Happened (plain h) event s) (within : event = .counted → whole = true)
    (noted : logged h = .ok () ⟨s.shell, s.world, h.world.log ++ [⟨event, s.world.outgoing⟩]⟩) :
    Mirrors whole h logged act := by
  refine ⟨?_, ?_⟩
  · rw [noted, ran]
    rfl
  · rw [noted]
    exact .ok (.single (.noted happened within rfl))

/-- Where a run fails, nothing is noted. -/
theorem of_stopped {logged : Act LoggedSession α} {act : Act Session α} {fault : Fault} {s : Session}
    (ran : act (plain h) = .error fault s) (stuck : Stuck h ⟨s.shell, s.world, h.world.log⟩)
    (stopped : logged h = .error fault ⟨s.shell, s.world, h.world.log⟩) : Mirrors whole h logged act := by
  refine ⟨?_, ?_⟩
  · rw [stopped, ran]
    rfl
  · rw [stopped]
    exact .error .here stuck

/-- A call of which something is noted only together with what comes of it. -/
theorem after_call {act : Act Session α} {next : α → Act LoggedSession β} {onward : α → Act Session β} {a : α} {s : Session}
    (ran : act (plain h) = .ok a s) (untimed : stopwatch s = stopwatch (plain h))
    (alike : erased (next a ⟨s.shell, s.world, h.world.log⟩) = onward a s)
    (reached : Reached whole h (next a ⟨s.shell, s.world, h.world.log⟩)) :
    Mirrors whole h (plainly act >>= next) (act >>= onward) := by
  have called := plainly_of_ok ran
  rw [noting_of_same untimed] at called
  refine ⟨?_, ?_⟩
  · rw [Act.bind_of_ok called, Act.bind_of_ok ran]
    exact alike
  · rw [Act.bind_of_ok called]
    exact reached

/-- A call in passing. -/
theorem plainly {reading : Bool} {act : Act Session α} (passes : Passes reading (plain h) act)
    (within : reading = true → whole = true) : Mirrors whole h (plainly act) act := by
  unfold Passes at passes
  cases ran : act (plain h) with
  | ok a t =>
    rw [ran] at passes
    exact of_called ran passes within (plainly_of_ok ran)
  | error fault t =>
    rw [ran] at passes
    have path : Advances whole h (noting h t) := .single (.called passes within rfl)
    refine ⟨?_, ?_⟩
    · rw [plainly_of_error ran, ran]
      rfl
    · rw [plainly_of_error ran]
      exact .error path (.refl _)

/-- A call in passing, outside of messages being read. -/
theorem passing {act : Act Session α} (passes : Passes false (plain h) act) : Mirrors whole h (Logged.plainly act) act :=
  plainly passes fun reading => nomatch reading

theorem print (text : Text) : Mirrors whole h (Logged.plainly (print text)) (print text) := passing (.print text)

/-- A line that cannot be queued is told, or goes nowhere while a demo plays. -/
theorem forwardLine_of_idle {s : Session} (idle : (s.world.connected && !s.world.playing) = false) :
    ∃ shell, Client.forwardLine s = .ok () { s with shell } := by
  change ∃ shell, (if !s.world.connected then _ else if !s.world.playing then _ else _ : Act Session Unit) s = _
  cases live : s.world.connected with
  | false => exact ⟨_, rfl⟩
  | true =>
    rw [live] at idle
    have playing : s.world.playing = true := by simpa using idle
    rw [playing]
    exact ⟨_, rfl⟩

/-- The line that is run is queued if there is a server for it. -/
theorem forwardLine {text : Text} (line : h.shell.line = Line.ofText text) :
    Mirrors whole h Logged.forwardLine Client.forwardLine := by
  let queueing (t : LoggedSession) : Act LoggedSession Unit :=
    if t.world.client.connected && !t.world.client.playing then note (.queued t.world.client.socket t.shell.line)
    else Pure.pure ()
  have after {s : Session} (ran : Client.forwardLine (plain h) = .ok () s) (untimed : stopwatch s = stopwatch (plain h)) :
      Logged.forwardLine h = queueing (noting h s) (noting h s) := Act.bind_of_ok (plainly_of_ok ran)
  cases ready : h.world.client.connected && !h.world.client.playing with
  | false =>
    obtain ⟨shell, ran⟩ := forwardLine_of_idle (s := plain h) ready
    refine of_called ran (passage_of_shell (plain h) shell) (fun reading => nomatch reading) ?_
    rw [after ran rfl]
    exact congrFun (if_neg (Bool.eq_false_iff.1 ready)) _
  | true =>
    obtain ⟨live, quiet⟩ := Bool.and_eq_true_iff.1 ready
    have quiet : h.world.client.playing = false := by simpa using quiet
    have same : Client.forwardLine (plain h) = adding h.shell.line (plain h) := forwardLine_of_live (s := plain h) live quiet
    cases added : addCommand h.shell.line h.world.client.outgoing with
    | ok _ queue =>
      let t : Session := { plain h with world.outgoing := queue }
      have ran : Client.forwardLine (plain h) = .ok () t := same.trans (adding_of_ok (s := plain h) added)
      have settled : noting h t = ⟨t.shell, t.world, h.world.log⟩ := noting_of_same rfl
      refine of_noted ran (.queued live quiet line added rfl rfl) (fun counts => nomatch counts) ?_
      rw [after ran rfl, settled]
      exact congrFun (if_pos ready) _
    | error fault queue =>
      let t : Session := { plain h with world.outgoing := queue }
      have ran : Client.forwardLine (plain h) = .error fault t := same.trans (adding_of_error (s := plain h) added)
      have settled : noting h t = ⟨t.shell, t.world, h.world.log⟩ := noting_of_same rfl
      have stopped : Logged.forwardLine h = .error fault (noting h t) := Act.bind_of_error (plainly_of_error ran)
      rw [settled] at stopped
      exact of_stopped ran ⟨.inr ⟨fault, added⟩, rfl, rfl⟩ stopped

theorem line_bind {next : Line → Act LoggedSession α} {onward : Line → Act Session α}
    (there : Mirrors whole h (next h.shell.line) (onward h.shell.line)) :
    Mirrors whole h (Logged.plainly Client.line >>= next) (Client.line >>= onward) := by
  have read : Logged.plainly Client.line h = .ok h.shell.line h := by
    have same : noting h (plain h) = h := noting_of_same rfl
    have ran : Client.line (plain h) = .ok h.shell.line (plain h) := rfl
    rw [plainly_of_ok ran, same]
  refine ⟨?_, ?_⟩
  · rw [Act.bind_of_ok read]
    exact there.alike
  · rw [Act.bind_of_ok read]
    exact there.reached

theorem ifFromPlayer {logged : Act LoggedSession Unit} {act : Act Session Unit}
    (mirrors : ∀ t, Mirrors whole t logged act) : Mirrors whole h (Logged.ifFromPlayer logged) (Client.ifFromPlayer act) := by
  refine bind (passing .fromPlayer) fun given t _ => ?_
  split
  · exact mirrors t
  · exact pure _

theorem change {f : Client → Client} (heard : ∀ s : Session, outlet { s with world := f s.world } = outlet s)
    (timed : ∀ s : Session, stopwatch { s with world := f s.world } = stopwatch s) :
    Mirrors whole h (Logged.plainly (Client.change f)) (Client.change f) := passing (.change heard timed)

/-- A change that is noted. -/
theorem of_change {f : Client → Client} {event : Event}
    (happened : Happened (plain h) event { plain h with world := f h.world.client })
    (within : event = .counted → whole = true)
    (unremarked : remarks (plain h) { plain h with world := f h.world.client } = []) :
    Mirrors whole h (do
      Logged.plainly (Client.change f)
      note event) (Client.change f) := by
  have ran : Client.change f (plain h) = .ok () { plain h with world := f h.world.client } := rfl
  exact of_noted ran happened within (change_noted event unremarked)

/-- A demo that has just been begun goes on to be timed. -/
theorem startTiming (playing : h.world.client.playing = true) : Mirrors whole h
    (do
      Logged.plainly (Client.change fun c => { c with timing := ⟨true, -1, c.frames, c.clock⟩ })
      note .timed)
    (Client.change fun c => { c with timing := ⟨true, -1, c.frames, c.clock⟩ }) := by
  let t : Session := { plain h with world.timing := ⟨true, -1, h.world.client.frames, h.world.client.clock⟩ }
  have unremarked : remarks (plain h) t = [] := by simp [remarks, t]
  exact of_change (.timed playing) (fun counts => nomatch counts) unremarked

theorem timeDemo : Mirrors whole h Logged.timeDemo Client.timeDemo := by
  refine bind (passing (.demoNamed _)) fun named m _ => ?_
  split
  · refine bind (passing (.playDemo _)) fun opened t ran => ?_
    split
    · rename_i yes
      obtain ⟨s, begun, rfl⟩ := plainly_ok ran
      cases played_of_ok begun with
      | missing => cases yes
      | opened _ now _ => exact startTiming (congrArg Core.playing now)
    · exact pure _
  · exact pure _

/-- A recording that is begun may take the place of a timed demo, and does nothing else that is noted. -/
theorem beginRecording (path : Path) (track : Int32) :
    Mirrors whole h (Logged.beginRecording path track) (Client.beginRecording path track) := by
  obtain ⟨t, ran, begun⟩ := beginRecording_spec path track (plain h)
  have same : dial t = dial (plain h) := (blind_dial.beginRecording dial_demo path track).of_ok ran
  have heard : outlet t = outlet (plain h) := (Unheard.beginRecording path track).of_ok ran
  have settled : noting h t = ⟨t.shell, t.world, h.world.log⟩ := by
    rw [noting, remarks_of_active (congrArg (fun w => w.timing.active) same), List.append_nil]
  have after : Logged.beginRecording path track h =
      (if h.world.client.timing.active && h.world.client.playing && t.world.recording then note .supplanted
        else Pure.pure () : Act LoggedSession Unit) (noting h t) := Act.bind_of_ok (plainly_of_ok ran)
  cases supplants : h.world.client.timing.active && h.world.client.playing && t.world.recording with
  | true =>
    obtain ⟨going, recording⟩ := Bool.and_eq_true_iff.1 supplants
    obtain ⟨timed, playing⟩ := Bool.and_eq_true_iff.1 going
    refine of_noted ran (.supplanted timed playing recording heard same) (fun counts => nomatch counts) ?_
    rw [after, settled, supplants]
    rfl
  | false =>
    have onward (playing : h.world.client.playing = true) (timed : t.world.timing.active = true) :
        t.world.playing = true := by
      have before : h.world.client.timing.active = true :=
        (congrArg (fun w => w.timing.active) same).symm.trans timed
      cases begun with
      | opened _ now =>
        have recording : t.world.recording = true := congrArg Core.recording now
        rw [before, playing, recording] at supplants
        cases supplants
      | refused _ now => exact (congrArg Core.playing now).trans playing
    refine of_called ran (Passes.of_ok (.beginRecording ran onward) ran) (fun reading => nomatch reading) ?_
    rw [after, supplants]
    rfl

section

variable {run : Text → Source → Act LoggedSession Unit} {runs : Text → Source → Act Session Unit}
  (mirrors : ∀ text source t, Mirrors whole t (run text source) (runs text source))

include mirrors

theorem record : Mirrors whole h (Logged.record run) (Client.record runs) := by
  unfold Logged.record Client.record
  refine line_bind (ask_bind ?_)
  cases recordRefusal? h.shell.line h.world.client with
  | some refusal => exact print _
  | none =>
    have rest (line : Line) (path : Path) (t : LoggedSession) : Mirrors whole t
        (if 2 < line.count then (do
          run ("map " ++ line.word 2) .player
          Logged.beginRecording path (trackAsked line))
        else Logged.beginRecording path (trackAsked line))
        (if 2 < line.count then (do
          runs ("map " ++ line.word 2) .player
          Client.beginRecording path (trackAsked line))
        else Client.beginRecording path (trackAsked line)) := by
      split
      · exact bind (mirrors _ _ t) fun _ _ _ => beginRecording _ _
      · exact beginRecording _ _
    dsimp only
    split
    · exact bind (print _) fun _ _ _ => rest _ _ _
    · exact rest _ _ _

theorem perform (command : ClientCommand) : Mirrors whole h (Logged.perform run command) (Client.perform runs command) := by
  have other (command : ClientCommand) (records : command ≠ .record) (times : command ≠ .timeDemo) :
      Mirrors whole h (Logged.plainly (Client.perform (fun _ _ => Pure.pure ()) command))
        (Client.perform (fun _ _ => Pure.pure ()) command) :=
    passing (.perform records times)
  cases command with
  | record => exact ifFromPlayer fun _ => record mirrors
  | timeDemo => exact ifFromPlayer fun _ => timeDemo
  | disconnect => exact other .disconnect nofun nofun
  | quit => exact other .quit nofun nofun
  | writeConfig => exact other .writeConfig nofun nofun
  | stop => exact other .stop nofun nofun
  | play => exact other .play nofun nofun
  | startDemos => exact other .startDemos nofun nofun
  | demos => exact other .demos nofun nofun
  | stopDemo => exact other .stopDemo nofun nofun

end

/-- Only the shell changes. -/
theorem of_shell {logged : Act LoggedSession α} {act : Act Session α} {a : α} {shell : Shell ClientCommand}
    (ran : act (plain h) = .ok a { plain h with shell }) (same : logged h = .ok a { h with shell }) :
    Mirrors whole h logged act := by
  have settled : noting h { plain h with shell } = { h with shell } := noting_of_same rfl
  refine of_called ran (passage_of_shell (plain h) shell) (fun reading => nomatch reading) ?_
  rw [settled]
  exact same

theorem onShell (f : Shell ClientCommand → Shell ClientCommand) :
    Mirrors whole h (Host.onShell f : Act LoggedSession Unit) (Host.onShell f : Act Session Unit) := of_shell rfl rfl

theorem nextLine : Mirrors whole h (Host.askShell Shell.nextLine : Act LoggedSession (Option Text))
    (Host.askShell Shell.nextLine : Act Session (Option Text)) := of_shell rfl rfl

theorem throw (fault : Fault) : Mirrors whole h (throw fault : Act LoggedSession α) (throw fault) :=
  ⟨rfl, .error .here (.refl h)⟩

theorem runScript : Mirrors whole h (Host.runScript : Act LoggedSession Unit) (Host.runScript : Act Session Unit) := by
  refine get_bind ?_
  dsimp only [plain]
  split
  · exact onShell _
  · have script (name : Text) : Program.script (α := ClientCommand) name h.world =
        Program.script (α := ClientCommand) name h.world.client := rfl
    rw [script]
    split
    · exact bind (onShell _) fun _ _ _ => onShell _
    · exact onShell _

theorem hostForwardLine {text : Text} (line : h.shell.line = Line.ofText text) :
    Mirrors whole h (Host.forwardLine : Act LoggedSession Unit) (Host.forwardLine : Act Session Unit) := by
  refine get_bind ?_
  dsimp only [plain]
  split
  · exact forwardLine line
  · exact pure _

theorem runUnknown {text : Text} (line : h.shell.line = Line.ofText text) :
    Mirrors whole h (Host.runUnknown : Act LoggedSession Unit) (Host.runUnknown : Act Session Unit) := by
  refine get_bind ?_
  dsimp only [plain]
  have unknown : Program.forwardsUnknown (α := ClientCommand) h.world =
      Program.forwardsUnknown (α := ClientCommand) h.world.client := rfl
  rw [unknown]
  split
  · exact forwardLine line
  · exact onShell _

section

variable {run : Text → Source → Act LoggedSession Unit} {runs : Text → Source → Act Session Unit}
  (mirrors : ∀ text source t, Mirrors whole t (run text source) (runs text source))

include mirrors

theorem runProbe (kind : Probe) : Mirrors whole h (Host.runProbe run kind) (Host.runProbe runs kind) := by
  cases kind with
  | report => exact onShell fun s => s.print s.callText
  | fail => exact throw _
  | queue => exact onShell fun s => s.insertText (s.line.tail ++ ['\n'])
  | relay => exact get_bind (mirrors _ _ h)
  | forget => exact onShell fun s => s.removeCommand (s.line.word 1)

/-- The line being run is that of a text, which counts if it is forwarded. -/
theorem runAction {text : Text} (line : h.shell.line = Line.ofText text) (action : Action ClientCommand) :
    Mirrors whole h (Host.runAction run action) (Host.runAction runs action) := by
  cases action with
  | builtin command => exact onShell _
  | script => exact runScript
  | forward => exact hostForwardLine line
  | probe kind => exact runProbe mirrors kind
  | own command => exact perform mirrors command

end

theorem runLineWithin (depth : Nat) (text : Text) (source : Source) :
    Mirrors whole h (Host.runLineWithin depth text source : Act LoggedSession Unit)
      (Host.runLineWithin depth text source : Act Session Unit) := by
  induction depth generalizing h text source with
  | zero => exact throw _
  | succ depth ih =>
    refine bind (onShell _) fun _ m took => get_bind ?_
    have line : m.shell.line = Line.ofText text := by
      cases took
      rfl
    dsimp only [plain]
    generalize Host.meaning m.shell = meaning
    match meaning with
    | .nothing => exact pure _
    | .command action => exact runAction (fun text source _ => ih text source) line _
    | .alias value => exact onShell _
    | .variable => exact onShell _
    | .unknown => exact runUnknown line

theorem runLine (text : Text) (source : Source) :
    Mirrors whole h (Host.runLine text source : Act LoggedSession Unit) (Host.runLine text source : Act Session Unit) :=
  runLineWithin _ text source

theorem round : Mirrors whole h (Host.round : Act LoggedSession Bool) (Host.round : Act Session Bool) := by
  refine bind nextLine fun line m _ => ?_
  split
  · exact pure _
  · split
    · exact pure _
    · refine bind (runLine _ _) fun _ t _ => get_bind ?_
      dsimp only [plain]
      split
      · exact bind (onShell _) fun _ _ _ => pure _
      · exact pure _

theorem runPending (budget : Nat) :
    Mirrors whole h (Host.runPending budget : Act LoggedSession Unit) (Host.runPending budget : Act Session Unit) := by
  induction budget generalizing h with
  | zero =>
    refine get_bind ?_
    dsimp only [plain]
    split
    · exact pure _
    · exact throw _
  | succ budget ih =>
    rw [Host.runPending_succ, Host.runPending_succ]
    refine bind round fun more m _ => ?_
    split
    · exact ih
    · exact pure _

theorem tick : Mirrors whole h (Host.tick : Act LoggedSession Unit) (Host.tick : Act Session Unit) :=
  bind (onShell _) fun _ _ _ => runPending _

/-- An answer of the driver that changes nothing of what leads to it. -/
theorem exchange {net : Driver} {request : Act Driver α} (there : h.world.client.net = some net)
    (blind : ∀ driver, (Act.final (request driver)).ledger = driver.ledger) :
    Mirrors whole h (Logged.plainly (exchange net request)) (exchange net request) :=
  passing ⟨parting_of_same (exchange_unheard (s := plain h) there blind), lapse_of_same (Untimed.exchange net request _)⟩

theorem checkConnection : Mirrors whole h Logged.checkConnection Client.checkConnection := by
  refine ask_bind ?_
  cases h.world.client.playing with
  | true => exact pure _
  | false =>
    cases there : h.world.client.net with
    | none => exact pure _
    | some net =>
      refine bind (exchange there Driver.ledger_check) fun answer m _ => ?_
      cases answer with
      | none => exact pure _
      | some socket => exact of_change (.joined rfl rfl) (fun counts => nomatch counts) (remarks_of_same rfl)

theorem noted_bind {event : Event} {next : Unit → Act LoggedSession α} {act : Act Session α}
    (happened : Happened (plain h) event (plain h)) (within : event = .counted → whole = true)
    (there : Mirrors whole { h with world.log := h.world.log ++ [⟨event, h.world.client.outgoing⟩] } (next ()) act) :
    Mirrors whole h (note event >>= next) act := by
  have path : Advances whole h { h with world.log := h.world.log ++ [⟨event, h.world.client.outgoing⟩] } :=
    .single (.noted happened within rfl)
  exact ⟨there.alike, Reached.after path there.reached⟩

/-- What waits is handed over as a whole. It stays only if the driver says that it never can send it. -/
theorem answering {net : Driver} {socket : Socket} (waits : Waits (plain h) net socket) :
    Mirrors whole h
      (do
        let answer ← Logged.plainly (Client.exchange net (Driver.send socket h.world.client.outgoing.written))
        if answer == -1 then
          note (.answered socket h.world.client.outgoing.written answer)
          Logged.plainly (gameError "CL_WriteToServer: lost server connection")
        else
          Logged.plainly (Client.change fun c => { c with outgoing := c.outgoing.clear })
          note (.answered socket h.world.client.outgoing.written answer))
      (do
        if (← Client.exchange net (Driver.send socket h.world.client.outgoing.written)) == -1 then
          gameError "CL_WriteToServer: lost server connection"
        else Client.change fun c => { c with outgoing := c.outgoing.clear }) := by
  have same := outlet_exchange net (Driver.send socket h.world.client.outgoing.written) (plain h)
  have still := Untimed.exchange net (Driver.send socket h.world.client.outgoing.written) (plain h)
  cases ran : Client.exchange net (Driver.send socket h.world.client.outgoing.written) (plain h) with
  | error fault m =>
    rw [ran] at same still
    have untimed : stopwatch m = stopwatch (plain h) := still
    have stopped := plainly_of_error ran
    rw [noting_of_same untimed] at stopped
    exact of_stopped (Act.bind_of_error ran) ⟨.inl (congrArg Outlet.queue same), untimed, rfl⟩ (Act.bind_of_error stopped)
  | ok answer m =>
    rw [ran] at same still
    have untimed : stopwatch m = stopwatch (plain h) := still
    have kept : m.world.outgoing = h.world.client.outgoing := congrArg Outlet.queue same
    by_cases lost : answer = -1
    · subst lost
      let n : LoggedSession := ⟨m.shell, m.world, h.world.log ++
        [⟨.answered socket h.world.client.outgoing.written (-1), m.world.outgoing⟩]⟩
      have answered : Happened (plain h) (.answered socket h.world.client.outgoing.written (-1)) (plain n) :=
        .answered waits ran rfl untimed
      have path : Advances whole h n := .single (.noted answered (fun counts => nomatch counts) rfl)
      have ended : Mirrors whole n (Logged.plainly (gameError "CL_WriteToServer: lost server connection"))
          (gameError "CL_WriteToServer: lost server connection") := passing (.gameError _)
      exact after_call ran untimed ended.alike (Reached.after path ended.reached)
    · have other : (answer == -1) = false := by simpa using lost
      let n : LoggedSession := ⟨m.shell, { m.world with outgoing := m.world.outgoing.clear }, h.world.log ++
        [⟨.answered socket h.world.client.outgoing.written answer, m.world.outgoing.clear⟩]⟩
      have answered : Happened (plain h) (.answered socket h.world.client.outgoing.written answer) (plain n) := by
        refine .answered waits ran ?_ untimed
        rw [if_neg lost]
        exact congrArg (fun queue : Buffer => { outlet m with queue := queue.clear }) kept
      have cleared : Client.change (fun c => { c with outgoing := c.outgoing.clear }) m = .ok () (plain n) := rfl
      let k : LoggedSession := ⟨m.shell, m.world, h.world.log⟩
      have went : (do
          Logged.plainly (Client.change fun c => { c with outgoing := c.outgoing.clear })
          note (.answered socket h.world.client.outgoing.written answer) : Act LoggedSession Unit) k = .ok () n :=
        change_noted (h := k) _ (remarks_of_same rfl)
      have path : Reached whole h (.ok () n) := .ok (.single (.noted answered (fun counts => nomatch counts) rfl))
      rw [← went] at path
      refine after_call ran untimed ?_ ?_
      · rw [other]
        exact (congrArg erased went).trans cleared.symm
      · rw [other]
        exact path

theorem offering {asked net : Driver} {socket : Socket} (waits : Waits (plain h) net socket) :
    Mirrors whole h (Logged.offering asked socket h.world.client.outgoing.written)
      (Client.offering asked socket h.world.client.outgoing.written) := by
  refine noted_bind (.offered waits) (fun counts => nomatch counts) (ask_bind ?_)
  have there : h.world.client.net = some net := waits.there
  dsimp only
  rw [there]
  exact answering (h := { h with world.log := _ }) waits

theorem sendCommands : Mirrors whole h Logged.sendCommands Client.sendCommands := by
  refine ask_bind ?_
  split
  · exact pure _
  · rename_i busy
    simp only [Bool.or_eq_true, not_or, beq_iff_eq] at busy
    split
    · rename_i spilt
      refine bind (print _) fun _ m ran => ?_
      obtain ⟨s, printed, rfl⟩ := plainly_ok ran
      cases printed
      exact of_change (.dropped spilt rfl rfl) (fun counts => nomatch counts) (remarks_of_same rfl)
    · rename_i unspilt
      cases there : h.world.client.net with
      | none => exact pure _
      | some net =>
        cases linked : h.world.client.socket with
        | none => exact pure _
        | some socket =>
          refine bind (exchange there fun driver => driver.ledger_canSend socket) fun ready m ran => ?_
          obtain ⟨s, asked, rfl⟩ := plainly_ok ran
          have waits : Waits (plain h) net socket := ⟨there, linked, Bool.eq_false_iff.2 unspilt, busy.2⟩
          have same : outlet s = outlet (plain h) := canSend_same there asked
          have queue : s.world.outgoing = h.world.client.outgoing := congrArg Outlet.queue same
          obtain ⟨now, after⟩ := net_exchange asked
          cases ready with
          | false => exact pure _
          | true =>
            rw [← queue]
            exact offering (h := noting h s) (waits.of_outlet same after)

theorem serve (seconds : Double) : Mirrors whole h (Logged.serve seconds) (Client.serve seconds) := by
  refine ask_bind ?_
  split
  · exact bind sendCommands fun _ _ _ => bind (change (fun _ => rfl) fun _ => rfl) fun _ _ _ => pure _
  · exact pure _

theorem tellTime (time : Double) : Mirrors whole h (Logged.plainly (Client.tellTime time)) (Client.tellTime time) :=
  passing (.of_quiet (.tellTime time) fun _ => rfl)

theorem approach (seconds : Double) : Mirrors whole h (Logged.approach seconds) (Client.approach seconds) := by
  refine bind (change (fun _ => rfl) fun _ => rfl) fun _ m _ => ask_bind (bind (tellTime _) fun _ m _ => ?_)
  refine bind tick fun _ m _ => ask_bind ?_
  dsimp only
  split
  · exact bind checkConnection fun _ _ _ => serve seconds
  · exact serve seconds

theorem frame (seconds : Double) : Mirrors true h (Logged.frame seconds) (Client.frame seconds) := by
  have counted (t : LoggedSession) : Mirrors true t countFrame (Client.change fun c => { c with frames := c.frames + 1 }) :=
    of_change .counted (fun _ => rfl) (remarks_of_active rfl)
  rw [frame_eq]
  refine bind (approach seconds) fun reads m _ => ?_
  dsimp only
  split
  · exact bind (plainly .readServer fun _ => rfl) fun _ t _ => counted t
  · exact counted m

theorem turn (turn : Turn) : Mirrors true h (Logged.turn turn) turn.act := by
  cases turn with
  | enter text => exact onShell _
  | run text source => exact runLine text source
  | frame seconds => exact frame seconds
  | shutDown => exact passing .shutDown

theorem states (inputs : List Input) : Mirrors true h (Logged.states inputs) (Input.states inputs) := by
  induction inputs generalizing h with
  | nil => exact pure _
  | cons input rest ih =>
    cases input with
    | host input => exact bind (turn input) fun _ _ _ => get_bind (bind ih fun _ _ _ => pure _)
    | happen happening =>
      exact bind (passing (.of_quiet (.onNet fun net => net.ledger_happening happening) fun _ => rfl)) fun _ _ _ => ih

end Mirrors

/-- A turn that is no frame goes like a part of one, and completes none. -/
theorem Mirrors.turn_or_frame (turn : Turn) : (∃ seconds, turn = .frame seconds) ∨
    (∀ h, Mirrors false h (Logged.turn turn) turn.act) ∧ ∀ s, completed turn s = 0 := by
  cases turn with
  | enter text => exact .inr ⟨fun h => onShell _, fun s => rfl⟩
  | run text source => exact .inr ⟨fun h => runLine text source, fun s => rfl⟩
  | frame seconds => exact .inl ⟨seconds, rfl⟩
  | shutDown => exact .inr ⟨fun h => passing .shutDown, fun s => rfl⟩

/-- An action that ends well goes by steps, with a journal that is begun with it. -/
theorem Mirrors.advances {α : Type} {logged : Act LoggedSession α} {act : Act Session α} {s t : Session} {a : α}
    (mirrors : Mirrors whole (opened s) logged act) (ran : act s = .ok a t) :
    ∃ n, logged (opened s) = .ok a n ∧ Advances whole (opened s) n ∧ plain n = t := by
  obtain ⟨alike, reached⟩ := mirrors
  rw [show act (plain (opened s)) = .ok a t from ran] at alike
  cases went : logged (opened s) with
  | ok b n =>
    rw [went] at alike reached
    cases alike
    cases reached with
    | ok path => exact ⟨n, rfl, path, rfl⟩
  | error fault n =>
    rw [went] at alike
    cases alike

end GameHost.Client
