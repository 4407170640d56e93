import GameHost.Proofs.Client.Aside
import GameHost.Proofs.Client.Core
import GameHost.Proofs.Shell.Names
import GameHost.Proofs.Turn

/-!
Runs of the client as chains of moves. A move is one call of a function that can connect or disconnect, begin or end
a demo or write a file; whatever else happens is a move that changes nothing of these.
-/
namespace GameHost.Client
open GameHost.Network (Socket Driver)

/-- One thing that the client does. -/
inductive Move (s t : Session) : Prop where
  | around (same : core t = core s)
  | accept {socket : Socket} (quiet : s.world.playing = false)
      (now : core t = { core s with socket := some socket, connected := true })
  | timing (playing : s.world.playing = true) (now : core t = { core s with timed := true })
  | saveTape (ran : saveTape s = .ok () t)
  | finishTape (ran : finishTape s = .ok () t)
  | writeConfig (ran : writeConfig s = .ok () t)
  | stopPlayback (ran : stopPlayback s = .ok () t)
  | stopRecording (ran : stopRecording s = .ok () t)
  | disconnect (ran : disconnect s = .ok () t)
  | playDemo {name : Text} {opened : Bool} (ran : playDemo name s = .ok opened t)
  | beginRecording {path : Path} {track : Int32} (quiet : s.world.recording = false)
      (ran : beginRecording path track s = .ok () t)
  | recordMessage (linked : s.world.socket.isSome = true) (ran : recordMessage s = .ok () t)
  | demoMessage {kind : Int32} (ran : demoMessage s = .ok kind t)

/-- Moves from one session to another, with all the states that they go through. -/
inductive Trail : Session → List Session → Session → Prop where
  | here {s : Session} : Trail s [s] s
  | step {s m t : Session} {later : List Session} (move : Move s m) (onward : Trail m later t) : Trail s (s :: later) t

def Moves (s t : Session) : Prop := ∃ trail, Trail s trail t

namespace Moves

variable {s m t : Session}

theorem refl : Moves s s := ⟨[s], .here⟩

theorem single (move : Move s t) : Moves s t := ⟨[s, t], .step move .here⟩

theorem trans (first : Moves s m) (second : Moves m t) : Moves s t := by
  obtain ⟨trail, leads⟩ := first
  induction leads with
  | here => exact second
  | step move _ ih =>
    obtain ⟨rest, onward⟩ := ih second
    exact ⟨_, .step move onward⟩

end Moves

/-- A move that leaves the message last received as large as it can be. -/
structure Deed (s t : Session) : Prop where
  move : Move s t
  capacity : t.world.incoming.capacity = s.world.incoming.capacity

inductive Deeds : Session → Session → Prop where
  | here {s : Session} : Deeds s s
  | step {s m t : Session} (deed : Deed s m) (onward : Deeds m t) : Deeds s t

namespace Deeds

variable {s m t : Session}

theorem single (deed : Deed s t) : Deeds s t := .step deed .here

theorem trans (first : Deeds s m) (second : Deeds m t) : Deeds s t := by
  induction first with
  | here => exact second
  | step deed _ ih => exact .step deed (ih second)

theorem moves (deeds : Deeds s t) : Moves s t := by
  induction deeds with
  | here => exact .refl
  | step deed _ ih => exact (Moves.single deed.move).trans ih

theorem capacity (deeds : Deeds s t) : t.world.incoming.capacity = s.world.incoming.capacity := by
  induction deeds with
  | here => rfl
  | step deed _ ih => exact ih.trans deed.capacity

end Deeds

def commandTable : NameTable (Action ClientCommand) := Shell.standardCommands ++ commands

/-- The variables that a client is made with. -/
def variableTable : NameTable Variable := [("_cl_name".toList, Shell.newVariable "player" true false)]

def Ready (s : Session) : Prop := s.shell.commands = commandTable

/-- What fails in the end, if a run does not end well: something that changes nothing else, a write of what is
recorded of the session, or the next message of a demo. -/
inductive Fails (s t : Session) : Prop where
  | around (same : core t = core s)
  | saveTape {fault : Fault} (ran : saveTape s = .error fault t)
  | finishTape {fault : Fault} (ran : finishTape s = .error fault t)
  | demoMessage {fault : Fault} (ran : demoMessage s = .error fault t)

/-- An outcome that moves lead to from `s`, up to what fails. -/
inductive Course (s : Session) {α : Type} : EStateM.Result Fault Session α → Prop where
  | ok {a : α} {t : Session} (moves : Moves s t) : Course s (.ok a t)
  | error {fault : Fault} {m t : Session} (moves : Moves s m) (fails : Fails m t) : Course s (.error fault t)

/-- The same with deeds for moves. -/
inductive Conduct (s : Session) {α : Type} : EStateM.Result Fault Session α → Prop where
  | ok {a : α} {t : Session} (deeds : Deeds s t) : Conduct s (.ok a t)
  | error {fault : Fault} {m t : Session} (deeds : Deeds s m) (fails : Fails m t) : Conduct s (.error fault t)

theorem Conduct.course {s : Session} {α : Type} {outcome : EStateM.Result Fault Session α} (conduct : Conduct s outcome) :
    Course s outcome := by
  cases conduct with
  | ok deeds => exact .ok deeds.moves
  | error deeds fails => exact .error deeds.moves fails

theorem shell_newSession (folders : SearchPath) (disk : Disk) (console : Console) :
    (newSession folders disk console).shell =
      { (Shell.empty console : Shell ClientCommand) with commands := commandTable, vars := variableTable } := by
  let blank : Shell ClientCommand := Shell.empty console
  let standard : Shell ClientCommand := { blank with commands := Shell.standardCommands }
  let named := { standard with vars := variableTable }
  have made : (newSession folders disk console).shell =
      Shell.registerAll commands (blank.registerStandard.registerVariable "_cl_name" "player" true false).2 := by
    rw [newSession]
  have first : blank.registerStandard = standard :=
    Shell.registerAll_of_free _ _ (fun _ _ => ⟨rfl, rfl, rfl⟩) (by decide)
  have second : (standard.registerVariable "_cl_name" "player" true false).2 = named := by
    have free : NameTable.has (Shell.standardCommands (α := ClientCommand)) "_cl_name" = false := by decide
    simp only [Shell.registerVariable, standard, free]
    rfl
  have third : named.registerAll commands = { named with commands := commandTable } := by
    have unlike : ∀ entry ∈ commands, NameTable.has (Shell.standardCommands (α := ClientCommand)) entry.1 = false ∧
        Text.same "_cl_name" entry.1 = false := by decide
    refine Shell.registerAll_of_free _ _ ?_ (by decide)
    intro entry member
    obtain ⟨command, other⟩ := unlike entry member
    exact ⟨command, rfl, by simpa [NameTable.has, NameTable.find?, named, variableTable] using other⟩
  rw [made, first, second, third]

theorem ready_newSession (folders : SearchPath) (disk : Disk) (console : Console) :
    Ready (newSession folders disk console) := by
  rw [Ready, shell_newSession]

/-- The core, how large the message last received can be, and the angles of the last demo frames. -/
def still (s : Session) : Core × Nat × (Angles × Angles) :=
  (core s, s.world.incoming.capacity, s.world.view.frameAngles)

/-- An action that changes nothing of these, however it ends. -/
abbrev Plain {α : Type} (act : Act Session α) : Prop := Act.Keeps still act

theorem core_of_still {s t : Session} (same : still t = still s) : core t = core s := congrArg Prod.fst same

theorem Deed.of_still {s t : Session} (same : still t = still s) : Deed s t :=
  ⟨.around (core_of_still same), congrArg (fun part => part.2.1) same⟩

theorem Deed.of_aside {s t : Session} (move : Move s t) (same : aside t = aside s) : Deed s t :=
  ⟨move, congrArg (fun a : Aside => a.incoming.capacity) same⟩

namespace Plain

variable {σ α : Type}

theorem change {f : Client → Client} (same : ∀ s : Session, still { s with world := f s.world } = still s) :
    Plain (change f) := same

theorem onShell {f : Shell ClientCommand → Shell ClientCommand} (same : ∀ shell, (f shell).commands = shell.commands) :
    Plain (Host.onShell f : Act Session Unit) := by
  intro s
  exact congrArg (fun commands => ({ core s with commands }, (still s).2)) (same s.shell)

theorem print (text : Text) : Plain (print text) := onShell (Shell.commands_print text)

theorem within {view : Client → σ} {replace : σ → Client → Client} {act : Act σ α}
    (same : ∀ part s, still { s with world := replace part s.world } = still s) :
    Plain (within view replace act) :=
  Act.Keeps.within same

theorem queueNextDemo : Plain queueNextDemo := by
  unfold Client.queueNextDemo
  apply Act.Keeps.ask_bind
  intro c
  split
  · split
    · exact .bind (print _) fun _ => change fun _ => rfl
    · exact .bind (onShell (Shell.commands_insertText _)) fun _ => change fun _ => rfl
  · exact .pure _

theorem forwardLine : Plain forwardLine := by
  unfold Client.forwardLine
  refine .ask_bind fun c => .line_bind fun line => ?_
  split
  · exact print _
  · split
    · exact within fun _ _ => rfl
    · exact .pure _

theorem demoNamed (usage : Text) : Plain (demoNamed usage) := by
  unfold Client.demoNamed
  apply Act.Keeps.line_bind
  intro line
  split
  · exact .pure _
  · exact .bind (print _) fun _ => .pure none

theorem fromPlayer : Plain fromPlayer := fun _ => rfl

theorem runScript : Plain (Host.runScript : Act Session Unit) := by
  unfold Host.runScript
  apply Act.Keeps.get_bind
  intro s
  split
  · exact print _
  · dsimp only
    split
    · exact .bind (print _) fun _ => onShell (Shell.commands_insertText _)
    · exact print _

theorem hostForwardLine : Plain (Host.forwardLine : Act Session Unit) := by
  unfold Host.forwardLine
  apply Act.Keeps.get_bind
  intro s
  split
  · exact forwardLine
  · exact .pure _

theorem runUnknown : Plain (Host.runUnknown : Act Session Unit) := by
  unfold Host.runUnknown
  apply Act.Keeps.get_bind
  intro s
  dsimp only
  split
  · exact forwardLine
  · exact print _

end Plain

theorem Stopped.commands {s t : Session} (stopped : Stopped s t) : (core t).commands = (core s).commands := by
  cases stopped with
  | nothing _ same => rw [same]
  | finished _ _ now => rw [now]
  | failed _ _ now _ => rw [now]

theorem Dropped.commands {s t : Session} (dropped : Dropped s t) : (core t).commands = (core s).commands := by
  cases dropped with
  | played _ now => rw [now]
  | recorded _ _ stopped now _ =>
    rw [now]
    exact stopped.commands
  | left _ _ now => rw [now]

theorem Played.commands {s t : Session} {opened : Bool} (played : Played s t opened) :
    (core t).commands = (core s).commands := by
  cases played with
  | opened dropped now _ =>
    rw [now]
    exact dropped.commands
  | missing dropped now _ =>
    rw [now]
    exact dropped.commands

theorem Taped.commands {s t : Session} (taped : Taped s t) : (core t).commands = (core s).commands := by
  cases taped with
  | nothing same => rw [same]
  | wrote _ _ _ now => rw [now]

/-- The outcome that a function is known to have is the outcome of every run of it. -/
theorem of_spec {α : Type} {act : Act Session α} {s t : Session} {a : α} {outcome : Session → Prop}
    (spec : ∃ t, act s = .ok a t ∧ outcome t) (ran : act s = .ok a t) : outcome t := by
  obtain ⟨u, ran', holds⟩ := spec
  cases ran.symm.trans ran'
  exact holds

theorem played_of_ok {s t : Session} {name : Text} {opened : Bool} (ran : playDemo name s = .ok opened t) :
    Played s t opened := by
  obtain ⟨_, u, ran', played⟩ := playDemo_spec name s
  cases ran.symm.trans ran'
  exact played

theorem Move.commands {s t : Session} (move : Move s t) : (core t).commands = (core s).commands := by
  cases move with
  | around same => rw [same]
  | accept _ now => rw [now]
  | timing _ now => rw [now]
  | saveTape ran => exact (saveTape_spec ran).commands
  | finishTape ran => exact (finishTape_spec ran).commands
  | writeConfig ran =>
    obtain ⟨text, now⟩ := of_spec (writeConfig_spec s) ran
    rw [now]
  | stopPlayback ran =>
    rw [of_spec (stopPlayback_spec s) ran]
    split <;> rfl
  | stopRecording ran => exact (of_spec (stopRecording_spec s) ran).commands
  | disconnect ran => exact (of_spec (disconnect_spec s) ran).commands
  | playDemo ran => exact (played_of_ok ran).commands
  | beginRecording _ ran =>
    cases of_spec (beginRecording_spec _ _ s) ran with
    | opened _ now => rw [now]
    | refused _ now => rw [now]
  | recordMessage _ ran =>
    cases of_spec (recordMessage_spec s) ran with
    | nothing _ same => rw [same]
    | kept _ _ now => rw [now]
    | failed _ _ now _ => rw [now]
  | demoMessage ran =>
    cases demoMessage_spec ran with
    | nothing same => rw [same]
    | read _ now => rw [now]
    | ended _ now => rw [now]

theorem Move.ready {s t : Session} (move : Move s t) (ready : Ready s) : Ready t :=
  move.commands.trans ready

theorem Moves.ready {s t : Session} (moves : Moves s t) (ready : Ready s) : Ready t := by
  obtain ⟨trail, leads⟩ := moves
  induction leads with
  | here => exact ready
  | step move _ ih => exact ih (move.ready ready)

def Walks (s : Session) {α : Type} (act : Act Session α) : Prop := Ready s → Conduct s (act s)

namespace Walks

variable {s : Session} {α β : Type}

theorem of_plain {act : Act Session α} (plain : Plain act) : Walks s act := by
  intro _
  cases ran : act s with
  | ok a t => exact .ok (.single (.of_still (plain.of_ok ran)))
  | error fault t => exact .error .here (.around (core_of_still (plain.of_error ran)))

theorem of_spec {act : Act Session α} {outcome : Session → Prop} {a : α} (spec : ∃ t, act s = .ok a t ∧ outcome t)
    (beside : Beside act) (move : ∀ t, act s = .ok a t → Move s t) : Walks s act := by
  obtain ⟨t, ran, _⟩ := spec
  intro _
  rw [ran]
  exact .ok (.single (.of_aside (move t ran) (beside.of_ok ran)))

theorem bind {act : Act Session α} {next : α → Act Session β} (first : Walks s act)
    (second : ∀ a t, act s = .ok a t → Walks t (next a)) : Walks s (act >>= next) := by
  intro ready
  have conduct := first ready
  cases ran : act s with
  | error fault m =>
    rw [ran] at conduct
    rw [Act.bind_of_error ran]
    cases conduct with
    | error deeds fails => exact .error deeds fails
  | ok a m =>
    rw [ran] at conduct
    rw [Act.bind_of_ok ran]
    cases conduct with
    | ok deeds =>
      have onward := second a m ran (deeds.moves.ready ready)
      cases there : next a m with
      | ok b t =>
        rw [there] at onward
        cases onward with
        | ok later => exact .ok (deeds.trans later)
      | error fault t =>
        rw [there] at onward
        cases onward with
        | error later fails => exact .error (deeds.trans later) fails

theorem after {act : Act Session α} {next : α → Act Session β} (plain : Plain act)
    (second : ∀ a t, core t = core s → Walks t (next a)) : Walks s (act >>= next) :=
  bind (of_plain plain) fun a t ran => second a t (core_of_still (plain.of_ok ran))

theorem ask_bind {next : Client → Act Session β} (there : Walks s (next s.world)) : Walks s (ask >>= next) := there

theorem recordMessage (linked : s.world.socket.isSome = true) : Walks s recordMessage :=
  of_spec (recordMessage_spec s) .recordMessage fun _ ran => .recordMessage linked ran

theorem saveTape : Walks s saveTape := by
  intro _
  cases ran : Client.saveTape s with
  | ok _ t => exact .ok (.single (.of_aside (.saveTape ran) (Beside.saveTape.of_ok ran)))
  | error fault t => exact .error .here (.saveTape ran)

theorem demoMessage : Walks s demoMessage := by
  intro _
  cases ran : Client.demoMessage s with
  | ok kind t => exact .ok (.single ⟨.demoMessage ran, capacity_demoMessage.of_ok ran⟩)
  | error fault t => exact .error .here (.demoMessage ran)

end Walks

end GameHost.Client
