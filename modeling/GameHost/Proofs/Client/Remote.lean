import GameHost.Proofs.Client.Finished
import GameHost.Proofs.Client.Gauges
import GameHost.Proofs.Client.Rounds
import GameHost.Proofs.Shell.Batches

/-!
What remote lines can bring about. A remote line by itself never makes the host quit, begin a demo, write a file or
queue anything for the server. But what it puts into the pending text runs as the player's own, and so the lines that
are for the player only are exactly where such a thing can happen.
-/
namespace GameHost.Client
open GameHost.Host (Meaning queue begun round)
open GameHost.Shell (Begins)

/-- What comes from outside: a remote line that is run at once, and a call that runs what waits. -/
inductive Outside where
  | line (text : Text)
  | tick
  deriving DecidableEq, Repr

def Outside.act : Outside → Act Session Unit
  | .line text => Host.runLine text .remote
  | .tick => Host.tick

/-- The session after them all, whether or not they end well. -/
def afterwards : List Outside → Session → Session
  | [], s => s
  | event :: rest, s => afterwards rest (Act.final (event.act s))

/-- A call comes to a line, with the session as it is when the line is run. -/
inductive Comes : Session → Text → Session → Prop where
  | here {s : Session} {line rest : Text} (begins : Begins s.shell.pending line rest)
      (wordy : (Text.trim line).isEmpty = false) : Comes s line (s.queue rest)
  | later {s m u : Session} {line : Text} (ran : round s = .ok true m) (more : Comes m line u) : Comes s line u

/-- What can be said of a session and a later one, if only the lines that are run can make a difference to it. -/
structure Carried (holds : Session → Session → Prop) : Prop where
  refl : ∀ s, holds s s
  trans : ∀ {s m t}, holds s m → holds m t → holds s t
  queue : ∀ (s : Session) text, holds s (s.queue text)
  begun : ∀ s : Session, holds s s.begun
  goOn : ∀ s : Session, holds s s.goOn

namespace Carried

variable {holds : Session → Session → Prop} {s : Session}

theorem round (carried : Carried holds)
    (lines : ∀ m line, Comes s line m → holds m (Act.final (Host.runLine line .player m))) :
    holds s (Act.final (round s)) := by
  by_cases none : s.shell.pending = []
  · rw [Host.round_usedUp none]
    exact carried.refl s
  obtain ⟨line, rest, begins⟩ := Shell.exists_begins none
  have taken := carried.queue s rest
  cases blank : (Text.trim line).isEmpty with
  | true =>
    rw [Host.round_blank begins blank]
    exact taken
  | false =>
    have ran := lines _ line (.here begins blank)
    rw [Host.round_wordy begins blank]
    cases outcome : Host.runLine line .player (s.queue rest) with
    | error fault m =>
      rw [outcome] at ran
      exact carried.trans taken ran
    | ok _ m =>
      rw [outcome] at ran
      dsimp only
      split
      · exact carried.trans taken (carried.trans ran (carried.goOn m))
      · exact carried.trans taken ran

theorem runPending (carried : Carried holds) (budget : Nat)
    (lines : ∀ m line, Comes s line m → holds m (Act.final (Host.runLine line .player m))) :
    holds s (Act.final (Host.runPending budget s)) := by
  -- the lines that come after a pass are among the lines that come, so the hypothesis goes on with the induction
  induction budget generalizing s with
  | zero =>
    rw [Host.final_runPending_zero]
    exact carried.refl s
  | succ budget ih =>
    have first := carried.round lines
    rw [Host.runPending_round]
    cases passed : Host.round s with
    | error fault m =>
      rw [passed] at first
      exact first
    | ok more m =>
      rw [passed] at first
      cases more with
      | false => exact first
      | true => exact carried.trans first (ih fun u line comes => lines u line (.later passed comes))

theorem tick (carried : Carried holds)
    (lines : ∀ m line, Comes s.begun line m → holds m (Act.final (Host.runLine line .player m))) :
    holds s (Act.final (Host.tick s)) :=
  carried.trans (carried.begun s) (carried.runPending _ lines)

end Carried

/-- The lines that are run, each with the session as it is then. -/
inductive Dispatched : Session → List Outside → Session → Text → Source → Prop where
  | line (s : Session) (text : Text) (rest : List Outside) : Dispatched s (.line text :: rest) s text .remote
  | tick {s m : Session} {text : Text} (comes : Comes s.begun text m) (rest : List Outside) :
      Dispatched s (.tick :: rest) m text .player
  | later {s m : Session} {event : Outside} {rest : List Outside} {text : Text} {source : Source}
      (more : Dispatched (Act.final (event.act s)) rest m text source) : Dispatched s (event :: rest) m text source

/-- Nothing is done that a remote line must not do: quit, begin a demo, queue something for the server, or write to a
file, but for the file of a recording that is under way. -/
structure Untouched (s t : Session) : Prop where
  quitting : t.world.quitting = s.world.quitting
  outgoing : t.world.outgoing = s.world.outgoing
  demo : t.world.demo = s.world.demo ∨ t.world.demo = .idle
  files : ∀ place, (∀ file, s.world.demo = .recording file → place ≠ file.place) →
    t.world.disk.entryAt place = s.world.disk.entryAt place

/-- What is for the player only. -/
def guarded : Action ClientCommand → Bool
  | .forward | .own .quit | .own .writeConfig | .own .record | .own .stop | .own .play | .own .timeDemo => true
  | _ => false

/-- A line that names nothing goes to the server, if the player gave it. -/
def meansGuarded : Meaning ClientCommand → Bool
  | .command action => guarded action
  | .unknown => true
  | _ => false

/-- Whether a line may put text where text waits to be run. -/
def queues : Meaning ClientCommand → Bool
  | .alias _ | .command (.probe .queue) | .command (.probe .relay) => true
  | meaning => meansPutBack meaning

namespace Untouched

variable {s m t : Session}

theorem of_same (quitting : t.world.quitting = s.world.quitting) (outgoing : t.world.outgoing = s.world.outgoing)
    (demo : t.world.demo = s.world.demo) (disk : t.world.disk = s.world.disk) : Untouched s t :=
  ⟨quitting, outgoing, .inl demo, fun _ _ => by rw [disk]⟩

theorem of_world (same : t.world = s.world) : Untouched s t := by
  apply of_same <;> rw [same]

theorem refl (s : Session) : Untouched s s := of_world rfl

theorem trans (first : Untouched s m) (second : Untouched m t) : Untouched s t := by
  refine ⟨second.quitting.trans first.quitting, second.outgoing.trans first.outgoing, ?_, ?_⟩
  · rcases second.demo with same | idle
    · rw [same]
      exact first.demo
    · exact .inr idle
  · -- a recording that is still under way at the second step was so at the first
    intro place apart
    refine (second.files place ?_).trans (first.files place apart)
    intro file recording
    rcases first.demo with same | idle
    · exact apart file (same.symm.trans recording)
    · exact nomatch idle.symm.trans recording

end Untouched

/-- An action that does nothing of the kind, however it ends. -/
def Harmless {α : Type} (act : Act Session α) : Prop := ∀ s, Untouched s (Act.final (act s))

namespace Harmless

variable {α β : Type}

theorem pure (a : α) : Harmless (pure a : Act Session α) := fun s => .refl s

theorem bind {act : Act Session α} {next : α → Act Session β} (first : Harmless act) (second : ∀ a, Harmless (next a)) :
    Harmless (act >>= next) := by
  intro s
  have here := first s
  cases ran : act s with
  | ok a m =>
    rw [ran] at here
    rw [Act.bind_of_ok ran]
    exact here.trans (second a m)
  | error fault m =>
    rw [ran] at here
    rw [Act.bind_of_error ran]
    exact here

theorem get_bind {next : Session → Act Session β} (each : ∀ s, Harmless (next s)) : Harmless (get >>= next) :=
  fun s => each s s

theorem ask_bind {next : Client → Act Session β} (each : ∀ c, Harmless (next c)) : Harmless (ask >>= next) :=
  fun s => each s.world s

theorem line_bind {next : Line → Act Session β} (each : ∀ line, Harmless (next line)) : Harmless (line >>= next) :=
  fun s => each s.shell.line s

theorem onShell (f : Shell ClientCommand → Shell ClientCommand) : Harmless (Host.onShell f : Act Session Unit) :=
  fun _ => .of_world rfl

theorem print (text : Text) : Harmless (print text) := onShell _

theorem change {f : Client → Client} (same : ∀ c, ((f c).quitting, (f c).outgoing, (f c).demo, (f c).disk) =
    (c.quitting, c.outgoing, c.demo, c.disk)) : Harmless (change f) := by
  intro s
  have same := same s.world
  simp only [Prod.mk.injEq] at same
  exact .of_same same.1 same.2.1 same.2.2.1 same.2.2.2

theorem queueNextDemo : Harmless queueNextDemo := by
  apply ask_bind
  intro c
  split
  · split
    · exact bind (print _) fun _ => change fun _ => rfl
    · exact bind (onShell _) fun _ => change fun _ => rfl
  · exact pure _

theorem startDemos : Harmless startDemos := by
  have loop (demos : List Text) : Harmless (do
      Client.print (Text.ofNat demos.length ++ " demo(s) in loop\n")
      Client.change fun c => { c with demos := demos.map (List.take Client.loopNameLimit) }
      let c ← ask
      if c.nextDemo != -1 && !c.playing then
        Client.change fun c => { c with nextDemo := 0 }
        Client.queueNextDemo
      else Client.change fun c => { c with nextDemo := -1 }) := by
    refine bind (print _) fun _ => bind (change fun _ => rfl) fun _ => ask_bind fun c => ?_
    split
    · exact bind (change fun _ => rfl) fun _ => queueNextDemo
    · exact change fun _ => rfl
  apply line_bind
  intro line
  dsimp only
  split
  · exact bind (print _) fun _ => loop _
  · exact loop _

theorem runScript : Harmless (Host.runScript : Act Session Unit) := by
  apply get_bind
  intro s
  split
  · exact print _
  · dsimp only
    split
    · exact bind (print _) fun _ => onShell _
    · exact print _

end Harmless

section

variable {s m t : Session} {place : Place}

theorem Stopped.files (stopped : Stopped s m) (apart : ∀ file, s.world.demo = .recording file → place ≠ file.place) :
    m.world.disk.entryAt place = s.world.disk.entryAt place := by
  have ended {file left : Writer} {disk : Disk} {outcome : EStateM.Result StorageFault (Writer × Disk) Unit}
      (recording : s.world.demo = .recording file)
      (wrote : finishDemo s.world.view.angles (file, s.world.disk) = outcome) (final : Act.final outcome = (left, disk)) :
      (left.close disk).entryAt place = s.world.disk.entryAt place := by
    have beside := finishDemo_local s.world.view.angles (file, s.world.disk)
    rw [wrote, final] at beside
    have other : place ≠ left.place := by
      rw [show left.place = file.place from beside.place]
      exact apart file recording
    exact (Writer.close_same left disk other).entry.trans (beside.others place (apart file recording))
  cases stopped with
  | nothing _ same => rw [show m.world.disk = s.world.disk from congrArg Core.disk same]
  | @finished file left disk recording wrote now =>
    rw [show m.world.disk = left.close disk from congrArg Core.disk now]
    exact ended recording wrote rfl
  | @failed file left disk fault recording wrote now _ =>
    rw [show m.world.disk = left.close disk from congrArg Core.disk now]
    exact ended recording wrote rfl

theorem Stopped.demo (stopped : Stopped s m) : m.world.demo = s.world.demo ∨ m.world.demo = .idle := by
  cases stopped with
  | nothing _ same => exact .inl (congrArg Core.demo same)
  | finished _ _ now => exact .inr (congrArg Core.demo now)
  | failed _ _ now _ => exact .inr (congrArg Core.demo now)

theorem Dropped.demo (dropped : Dropped s t) : t.world.demo = s.world.demo ∨ t.world.demo = .idle := by
  cases dropped with
  | played _ now => exact .inr (congrArg Core.demo now)
  | @recorded m _ _ stopped now _ =>
    rw [show t.world.demo = m.world.demo from congrArg Core.demo now]
    exact stopped.demo
  | left _ _ now => exact .inl (congrArg Core.demo now)

theorem Dropped.files (dropped : Dropped s t) (apart : ∀ file, s.world.demo = .recording file → place ≠ file.place) :
    t.world.disk.entryAt place = s.world.disk.entryAt place := by
  cases dropped with
  | played _ now | left _ _ now => rw [show t.world.disk = s.world.disk from congrArg Core.disk now]
  | @recorded m _ _ stopped now _ =>
    rw [show t.world.disk = m.world.disk from congrArg Core.disk now]
    exact stopped.files apart

end

namespace Harmless

theorem stopPlayback : Harmless stopPlayback := by
  have idle : Harmless (Client.change fun c => { c with demo := .idle, connected := false }) :=
    fun _ => ⟨rfl, rfl, .inr rfl, fun _ _ => rfl⟩
  apply ask_bind
  intro c
  split
  · apply bind idle
    intro _
    split
    · exact ask_bind fun _ => bind (change fun _ => rfl) fun _ => print _
    · exact pure _
  · exact pure _

/-- Leaving ends a demo that plays or that is recorded off a server, and of the files only the recording's changes. -/
theorem disconnect : Harmless disconnect := by
  intro s
  obtain ⟨t, ran, dropped⟩ := disconnect_spec s
  have same := gauges_disconnect s
  rw [ran] at same ⊢
  exact ⟨congrArg Gauges.quitting same, congrArg Gauges.outgoing same, dropped.demo, fun _ => dropped.files⟩

theorem resumeDemos : Harmless resumeDemos :=
  bind (change fun _ => rfl) fun _ => bind disconnect fun _ => queueNextDemo

theorem stopDemo : Harmless stopDemo := by
  apply ask_bind
  intro c
  split
  · exact bind stopPlayback fun _ => disconnect
  · exact pure _

end Harmless

section

variable {s m : Session} {run : Text → Source → Act Session Unit}

/-- What is for the player only does nothing on a remote line. -/
theorem ifFromPlayer_remote (remote : s.shell.source = .remote) (act : Act Session Unit) :
    ifFromPlayer act s = .ok () s := by
  change (if s.shell.source == .player then act else pure ()) s = _
  rw [remote]
  rfl

theorem forwardLine_remote (remote : s.shell.source = .remote) : (Host.forwardLine : Act Session Unit) s = .ok () s := by
  change (if s.shell.source == .player then Program.forward else pure ()) s = _
  rw [remote]
  rfl

theorem runUnknown_remote (remote : s.shell.source = .remote) :
    Host.runUnknown s = print ("Unknown command \"" ++ s.shell.line.word 0 ++ "\"\n") s := by
  rw [Host.runUnknown, Act.bind_get]
  rw [if_neg (by simp [remote])]
  rfl

theorem Untouched.ifFromPlayer (remote : s.shell.source = .remote) (act : Act Session Unit) :
    Untouched s (Act.final (ifFromPlayer act s)) := by
  rw [ifFromPlayer_remote remote]
  exact .refl s

theorem untouched_perform {command : ClientCommand}
    (fine : s.shell.source = .remote ∨ guarded (.own command) = false) :
    Untouched s (Act.final (perform run command s)) := by
  cases command with
  | disconnect => exact Harmless.disconnect s
  | startDemos => exact Harmless.startDemos s
  | demos => exact Harmless.resumeDemos s
  | stopDemo => exact Harmless.stopDemo s
  | quit | writeConfig | record | stop | play | timeDemo =>
    rcases fine with remote | open'
    · exact .ifFromPlayer remote _
    · cases open'

theorem untouched_runAction (relayed : ∀ text, Harmless (run text .remote)) {action : Action ClientCommand}
    (fine : s.shell.source = .remote ∨ guarded action = false) :
    Untouched s (Act.final (Host.runAction run action s)) := by
  cases action with
  | builtin command => exact Harmless.onShell _ s
  | script => exact Harmless.runScript s
  | forward =>
    rcases fine with remote | open'
    · change Untouched s (Act.final (Host.forwardLine s))
      rw [forwardLine_remote remote]
      exact .refl s
    · cases open'
  | probe kind =>
    cases kind with
    | report | queue | forget => exact Harmless.onShell _ s
    | fail => exact .refl s
    | relay => exact relayed _ s
  | own command => exact untouched_perform fine

/-- A line that is remote, or that is not for the player only, does none of it. -/
theorem untouched_runLineWithin (depth : Nat) (text : Text) {source : Source}
    (fine : source = .remote ∨ meansGuarded (Host.meaning (s.shell.accept text source)) = false) :
    Untouched s (Act.final (Host.runLineWithin depth text source s)) := by
  induction depth generalizing s text source with
  | zero => exact .refl s
  | succ depth ih =>
    let m : Session := { s with shell := s.shell.accept text source }
    have given : m.shell.source = source := rfl
    have fine : m.shell.source = .remote ∨ meansGuarded (Host.meaning m.shell) = false := fine
    rw [Host.runLineWithin_succ]
    unfold Host.runMeaning
    refine Untouched.trans (m := m) (.of_world rfl) ?_
    rcases means : Host.meaning m.shell with _ | action | value | _ | _
    · exact .refl m
    · rw [means] at fine
      exact untouched_runAction (fun text s => ih text (.inl rfl)) fine
    · exact Harmless.onShell _ m
    · exact Harmless.onShell _ m
    · rw [means] at fine
      rcases fine with remote | open'
      · change Untouched m (Act.final (Host.runUnknown m))
        rw [runUnknown_remote remote]
        exact Harmless.print _ m
      · cases open'

theorem untouched_runLine (text : Text) {source : Source}
    (fine : source = .remote ∨ meansGuarded (Host.meaning (s.shell.accept text source)) = false) :
    Untouched s (Act.final (Host.runLine text source s)) :=
  untouched_runLineWithin _ text fine

theorem Untouched.carried : Carried Untouched where
  refl := refl
  trans := trans
  queue _ _ := of_world rfl
  begun _ := of_world rfl
  goOn _ := of_world rfl

/-- What is run leaves everything untouched, line by line. -/
def Tame (s : Session) (events : List Outside) : Prop :=
  ∀ m text source, Dispatched s events m text source → Untouched m (Act.final (Host.runLine text source m))

theorem Tame.untouched {events : List Outside} (tame : Tame s events) : Untouched s (afterwards events s) := by
  induction events generalizing s with
  | nil => exact .refl s
  | cons event rest ih =>
    have later : Tame (Act.final (event.act s)) rest := fun m text source run => tame m text source (.later run)
    refine Untouched.trans ?_ (ih later)
    cases event with
    | line text => exact tame s text .remote (.line s text rest)
    | tick => exact Untouched.carried.tick fun m line comes => tame m line .player (.tick comes rest)

theorem pending_perform {command : ClientCommand} (remote : s.shell.source = .remote)
    (quiet : putsBack (.own command) = false) :
    (Act.final (perform run command s)).shell.pending = s.shell.pending := by
  have same {act : Act Session Unit} (beside : Beside act) : (Act.final (act s)).shell.pending = s.shell.pending :=
    congrArg Aside.pending (beside s)
  cases command with
  | disconnect => exact same .disconnect
  | stopDemo => exact same .stopDemo
  | startDemos | demos => cases quiet
  | quit | writeConfig | record | stop | play | timeDemo =>
    exact congrArg (fun outcome => (Act.final outcome).shell.pending) (ifFromPlayer_remote remote _)

theorem pending_runAction {action : Action ClientCommand} (remote : s.shell.source = .remote)
    (quiet : queues (.command action) = false) :
    (Act.final (Host.runAction run action s)).shell.pending = s.shell.pending := by
  cases action with
  | builtin command =>
    have other : command ≠ .runArguments := by
      rintro rfl
      cases quiet
    exact Shell.pending_runBuiltin other s.shell
  | script => cases quiet
  | forward => exact congrArg (fun outcome => (Act.final outcome).shell.pending) (forwardLine_remote remote)
  | probe kind =>
    cases kind with
    | report | fail => rfl
    | queue | relay => cases quiet
    | forget =>
      change (s.shell.removeCommand (s.shell.line.word 1)).pending = s.shell.pending
      unfold Shell.removeCommand
      split <;> rfl
  | own command => exact pending_perform remote quiet

/-- A remote line that queues nothing leaves what waits as it is. -/
theorem pending_runLine (text : Text) (quiet : queues (Host.meaning (s.shell.accept text .remote)) = false) :
    (Act.final (Host.runLine text .remote s)).shell.pending = s.shell.pending := by
  let m : Session := { s with shell := s.shell.accept text .remote }
  have quiet : queues (Host.meaning m.shell) = false := quiet
  change _ = m.shell.pending
  rw [Host.runLine_eq]
  rcases means : Host.meaning m.shell with _ | action | value | _ | _
  · rfl
  · rw [means] at quiet
    exact pending_runAction rfl quiet
  · rw [means] at quiet
    cases quiet
  · exact Shell.pending_useVariable _ _ _ m.shell
  · exact congrArg (fun outcome => (Act.final outcome).shell.pending) (runUnknown_remote (s := m) rfl)

theorem not_comes (idle : s.shell.pending = []) {line : Text} {m : Session} : ¬Comes s line m := by
  intro comes
  cases comes with
  | here begins _ => exact begins.1 idle
  | later ran _ =>
    rw [Host.round_usedUp idle] at ran
    cases ran

/-- As long as the remote lines queue nothing, the calls find nothing to run. -/
theorem nothing_dispatched {events : List Outside} (idle : s.shell.pending = [])
    (quiet : ∀ m text, Dispatched s events m text .remote → queues (Host.meaning (m.shell.accept text .remote)) = false)
    (text : Text) : ¬Dispatched s events m text .player := by
  intro run
  induction events generalizing s with
  | nil => cases run
  | cons event rest ih =>
    have later : ∀ m text, Dispatched (Act.final (event.act s)) rest m text .remote →
        queues (Host.meaning (m.shell.accept text .remote)) = false :=
      fun m text run => quiet m text (.later run)
    cases run with
    | tick comes _ => exact not_comes (show s.begun.shell.pending = [] from idle) comes
    | later more =>
      refine ih ?_ later more
      cases event with
      | line text => exact (pending_runLine text (quiet s text (.line s text rest))).trans idle
      | tick =>
        have ran : Host.tick s = .ok () s.begun := Host.runPending_usedUp (t := s.begun) idle Host.lineBudget
        change (Act.final (Host.tick s)).shell.pending = []
        rw [ran]
        exact idle

/-- Remote lines do none of what is for the player only. A run of such lines and of calls does it exactly if one of the
calls comes to a line that is for the player only and that does it; and the calls come to no line at all unless a remote
line calls an alias or a command that queues text. -/
theorem remote_run_tame_iff (idle : s.shell.pending = []) (events : List Outside) :
    (∀ m text, Dispatched s events m text .remote → Untouched m (Act.final (Host.runLine text .remote m))) ∧
    (Tame s events ↔ ∀ m text, Dispatched s events m text .player →
      meansGuarded (Host.meaning (m.shell.accept text .player)) = true →
        Untouched m (Act.final (Host.runLine text .player m))) ∧
    (Tame s events → Untouched s (afterwards events s)) ∧
    ((∀ m text, Dispatched s events m text .remote → queues (Host.meaning (m.shell.accept text .remote)) = false) →
      ∀ m text, ¬Dispatched s events m text .player) := by
  refine ⟨fun m text _ => untouched_runLine text (.inl rfl), ⟨fun tame m text run _ => tame m text .player run, ?_⟩,
    Tame.untouched, fun quiet m text => nothing_dispatched idle quiet text⟩
  intro fine m text source run
  cases source with
  | remote => exact untouched_runLine text (.inl rfl)
  | player =>
    cases means : meansGuarded (Host.meaning (m.shell.accept text .player)) with
    | true => exact fine m text run means
    | false => exact untouched_runLine text (.inr means)

end

/-- A remote line that calls an alias makes the host quit at the next call. -/
theorem remote_alias_quits :
    let events : List Outside := [.line "alias x quit", .line "x", .tick]
    (afterwards events demoStart).world.quitting = true ∧ demoStart.world.quitting = false ∧
      ¬∀ m text, Dispatched demoStart events m text .player →
        meansGuarded (Host.meaning (m.shell.accept text .player)) = true →
          Untouched m (Act.final (Host.runLine text .player m)) := by
  intro events
  have quits : (afterwards events demoStart).world.quitting = true := by decide +kernel
  have before : demoStart.world.quitting = false := by decide +kernel
  obtain ⟨_, tame, whole, _⟩ := remote_run_tame_iff (s := demoStart) (by decide +kernel) events
  refine ⟨quits, before, fun fine => ?_⟩
  have same := (whole (tame.2 fine)).quitting
  rw [quits, before] at same
  cases same

end GameHost.Client
