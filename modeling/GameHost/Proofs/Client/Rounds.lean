import GameHost.Proofs.Client.Walk

/-!
How long the lines of one frame go on. Every line but those of the commands that put text back makes the room for
further lines smaller, and each of those makes it larger by less than the text can be long. So a frame has no end
exactly if there is no end of lines of these commands, and aliases alone always come to an end.
-/
namespace GameHost.Client

/-- What runs a script, runs the program's arguments or goes on with the demo loop puts text back. -/
def putsBack : Action ClientCommand → Bool
  | .script | .builtin .runArguments | .own .startDemos | .own .demos => true
  | _ => false

def meansPutBack : Host.Meaning ClientCommand → Bool
  | .command action => putsBack action
  | _ => false

/-- Whether the next line is of a command that puts text back. -/
def refills (s : Session) : Bool :=
  match s.shell.nextLine with
  | (some line, shell) => meansPutBack (Host.meaning (shell.accept line .player))
  | (none, _) => false

/-- The state after so many lines that another follows, and how many of them were of commands that put text back. -/
inductive Rounds : Session → Nat → Nat → Session → Prop where
  | none {s : Session} : Rounds s 0 0 s
  | other {s m t : Session} {lines back : Nat} (onward : refills s = false) (ran : Host.round s = .ok true m)
      (rest : Rounds m lines back t) : Rounds s (lines + 1) back t
  | back {s m t : Session} {lines back : Nat} (again : refills s = true) (ran : Host.round s = .ok true m)
      (rest : Rounds m lines back t) : Rounds s (lines + 1) (back + 1) t

/-- After some lines there is one that no other follows. -/
def Ends (s : Session) : Prop := ∃ lines back t, Rounds s lines back t ∧ ∀ m, Host.round t ≠ .ok true m

/-- What a command leaves that puts text back: no more aliases are expanded, and no more waits than what waited and as
much again as can wait. -/
structure Raised (s t : Session) : Prop where
  expansions : t.shell.expansions = s.shell.expansions
  pending : t.shell.pending.length ≤ s.shell.pending.length + Shell.pendingLimit

/-- An action that leaves no more, however it ends. -/
def Raises {α : Type} (act : Act Session α) : Prop := ∀ s, Raised s (Act.final (act s))

theorem waiting_of_aside {s t : Session} (same : aside t = aside s) : t.shell.waiting = s.shell.waiting :=
  congrArg (fun a : Aside => (a.pending, a.expansions)) same

namespace Raised

variable {s m t : Session}

theorem room_le (raised : Raised s t) : t.shell.room ≤ s.shell.room + Shell.pendingLimit := by
  obtain ⟨expansions, pending⟩ := raised
  unfold Shell.room
  rw [expansions]
  omega

theorem of_waiting (same : t.shell.waiting = s.shell.waiting) : Raised s t := by
  obtain ⟨pending, expansions⟩ := Prod.mk.inj same
  refine ⟨expansions, ?_⟩
  rw [pending]
  exact Nat.le_add_right _ _

theorem after (same : m.shell.waiting = s.shell.waiting) (raised : Raised m t) : Raised s t := by
  obtain ⟨pending, expansions⟩ := Prod.mk.inj same
  exact ⟨raised.expansions.trans expansions, pending ▸ raised.pending⟩

theorem before (raised : Raised s m) (same : t.shell.waiting = m.shell.waiting) : Raised s t := by
  obtain ⟨pending, expansions⟩ := Prod.mk.inj same
  exact ⟨expansions.trans raised.expansions, pending ▸ raised.pending⟩

end Raised

namespace Raises

variable {α β : Type}

theorem of_beside {act : Act Session α} (beside : Beside act) : Raises act :=
  fun s => .of_waiting (waiting_of_aside (beside s))

theorem after {act : Act Session α} {next : α → Act Session β} (beside : Beside act) (raises : ∀ a, Raises (next a)) :
    Raises (act >>= next) := by
  intro s
  cases ran : act s with
  | ok a m =>
    rw [Act.bind_of_ok ran]
    exact (raises a m).after (waiting_of_aside (beside.of_ok ran))
  | error fault m =>
    rw [Act.bind_of_error ran]
    exact .of_waiting (waiting_of_aside (beside.of_error ran))

theorem before {act : Act Session α} {next : α → Act Session β} (raises : Raises act) (beside : ∀ a, Beside (next a)) :
    Raises (act >>= next) :=
  fun s => (raises s).before (waiting_of_aside (Act.Keeps.final_bind beside s))

theorem ask_bind {next : Client → Act Session β} (each : ∀ c, Raises (next c)) : Raises (ask >>= next) :=
  fun s => each s.world s

theorem line_bind {next : Line → Act Session β} (each : ∀ line, Raises (next line)) : Raises (line >>= next) :=
  fun s => each s.shell.line s

theorem get_bind {next : Session → Act Session β} (each : ∀ s, Raises (next s)) : Raises (get >>= next) :=
  fun s => each s s

theorem insertText (text : Text) : Raises (Host.onShell (Shell.insertText text) : Act Session Unit) := by
  intro s
  obtain ⟨pending, expansions⟩ := Prod.mk.inj (Shell.waiting_insertText text s.shell)
  refine ⟨expansions, ?_⟩
  change (s.shell.insertText text).pending.length ≤ _
  rw [pending]
  split
  · rename_i fits
    have short := Shell.length_of_hasRoom fits
    omega
  · exact Nat.le_add_right _ _

theorem queueNextDemo : Raises queueNextDemo := by
  unfold Client.queueNextDemo
  apply ask_bind
  intro c
  split
  · split
    · exact after (.print _) fun _ => of_beside (.change fun _ => rfl)
    · exact before (insertText _) fun _ => .change fun _ => rfl
  · exact of_beside (.pure _)

theorem startDemos : Raises startDemos := by
  have loop (demos : List Text) : Raises (do
      Client.print (Text.ofNat demos.length ++ " demo(s) in loop\n")
      Client.change fun c => { c with demos := demos.map (List.take Client.loopNameLimit) }
      let c ← ask
      if c.nextDemo != -1 && !c.playing then
        Client.change fun c => { c with nextDemo := 0 }
        Client.queueNextDemo
      else Client.change fun c => { c with nextDemo := -1 }) := by
    refine after (.print _) fun _ => after (.change fun _ => rfl) fun _ => ask_bind fun c => ?_
    split
    · exact after (.change fun _ => rfl) fun _ => queueNextDemo
    · exact of_beside (.change fun _ => rfl)
  refine line_bind fun line => ?_
  dsimp only
  split
  · exact after (.print _) fun _ => loop _
  · exact loop _

theorem resumeDemos : Raises resumeDemos :=
  after (.change fun _ => rfl) fun _ => after .disconnect fun _ => queueNextDemo

theorem runScript : Raises (Host.runScript : Act Session Unit) := by
  unfold Host.runScript
  apply get_bind
  intro s
  split
  · exact of_beside (.print _)
  · dsimp only
    split
    · exact after (.print _) fun _ => insertText _
    · exact of_beside (.print _)

theorem runArguments : Raises (Host.onShell Shell.runArguments : Act Session Unit) := by
  intro s
  change Raised s { s with shell := s.shell.runArguments }
  unfold Shell.runArguments
  split
  · exact .of_waiting rfl
  · dsimp only
    split
    · exact .of_waiting rfl
    · exact insertText _ s

end Raises

/-- What any other line leaves of the text that waits and of the count of aliases: both as they are, or as they are once
an alias of the table is expanded. -/
inductive Leaves (s t : Session) : Prop where
  | same (waiting : t.shell.waiting = s.shell.waiting)
  | called {entry : Text × Text} (listed : entry ∈ s.shell.aliases)
      (waiting : t.shell.waiting = (Host.expand entry.2 s.shell).waiting)

/-- The same of what an action does to one state. -/
def Minds (s : Session) (act : Act Session Unit) : Prop := Leaves s (Act.final (act s))

/-- A way to run further lines that does no more with those that start a map. -/
def MindsMaps (run : Text → Source → Act Session Unit) : Prop := ∀ word s, Ready s → Minds s (run ("map " ++ word) .player)

namespace Leaves

variable {s m t : Session}

theorem room_le (leaves : Leaves s t) : t.shell.room ≤ s.shell.room := by
  cases leaves with
  | same waiting => exact Nat.le_of_eq (Shell.room_of_waiting waiting)
  | called _ waiting =>
    rw [Shell.room_of_waiting waiting]
    exact Shell.room_expand _ s.shell

theorem after (same : (m.shell.aliases, m.shell.waiting) = (s.shell.aliases, s.shell.waiting)) (leaves : Leaves m t) :
    Leaves s t := by
  obtain ⟨aliases, waiting⟩ := Prod.mk.inj same
  obtain ⟨pending, expansions⟩ := Prod.mk.inj waiting
  cases leaves with
  | same now => exact .same (now.trans waiting)
  | called listed now =>
    refine .called (aliases ▸ listed) (now.trans ?_)
    rw [Shell.waiting_expand, Shell.waiting_expand, Shell.hasRoom, Shell.hasRoom, pending, expansions]

theorem before (leaves : Leaves s m) (same : aside t = aside m) : Leaves s t := by
  have same := waiting_of_aside same
  cases leaves with
  | same waiting => exact .same (same.trans waiting)
  | called listed waiting => exact .called listed (same.trans waiting)

theorem named {value : Text} (means : Host.meaning s.shell = .alias value) :
    Leaves s { s with shell := Host.expand value s.shell } := by
  unfold Host.meaning at means
  repeat' split at means
  all_goals cases means
  rename_i found
  obtain ⟨entry, there, rfl⟩ := Option.map_eq_some_iff.1 found
  exact .called (List.mem_of_find?_eq_some there) rfl

end Leaves

namespace Minds

variable {s : Session} {run : Text → Source → Act Session Unit}

theorem of_beside {act : Act Session Unit} (beside : Beside act) : Minds s act := .same (waiting_of_aside (beside s))

theorem of_standing {change : Shell ClientCommand → Shell ClientCommand}
    (same : (change s.shell).standing = s.shell.standing) : Minds s (Host.onShell change) :=
  .same (Shell.waiting_of_standing same)

theorem line_bind {next : Line → Act Session Unit} (there : Minds s (next s.shell.line)) : Minds s (line >>= next) := there

theorem ask_bind {next : Client → Act Session Unit} (there : Minds s (next s.world)) : Minds s (ask >>= next) := there

theorem before {act : Act Session Unit} {next : Unit → Act Session Unit} (minds : Minds s act)
    (beside : ∀ a, Beside (next a)) : Minds s (act >>= next) :=
  Leaves.before minds (Act.Keeps.final_bind beside s)

theorem forwardLine : Minds s Host.forwardLine := by
  change Minds s (if s.shell.source == .player then Client.forwardLine else pure ())
  split
  · exact of_beside .forwardLine
  · exact of_beside (.pure _)

theorem runUnknown : Minds s Host.runUnknown := by
  change Minds s (if _ then Client.forwardLine else Client.print _)
  split
  · exact of_beside .forwardLine
  · exact of_beside (.print _)

theorem runLineWithin (depth : Nat) (text : Text) (source : Source)
    (idle : ∀ action, Host.meaning (s.shell.accept text source) ≠ .command action) :
    Minds s (Host.runLineWithin depth text source) := by
  cases depth with
  | zero => exact of_beside (.throw _)
  | succ depth =>
    let m : Session := { s with shell := s.shell.accept text source }
    rw [Minds, Host.runLineWithin_succ]
    refine Leaves.after (m := m) rfl ?_
    cases means : Host.meaning (s.shell.accept text source) with
    | nothing => exact .same rfl
    | command action => exact absurd means (idle action)
    | «alias» value => exact .named means
    | «variable» => exact .same (Shell.waiting_of_standing (Shell.standing_useVariable _ _ _ m.shell))
    | unknown => exact runUnknown (s := m)

/-- A map is named by no command, so that starting it leaves no more than an alias of that name does. -/
theorem record (ready : Ready s) (maps : MindsMaps run) : Minds s (record run) := by
  have begins {m : Session} (known : Ready m) (path : Path) : Minds m (if 2 < s.shell.line.count then (do
      run ("map " ++ s.shell.line.word 2) .player
      Client.beginRecording path (trackAsked s.shell.line))
      else Client.beginRecording path (trackAsked s.shell.line)) := by
    split
    · exact (maps _ m known).before fun _ => .beginRecording _ _
    · exact of_beside (.beginRecording _ _)
  unfold Client.record
  refine line_bind (ask_bind ?_)
  split
  · exact of_beside (.print _)
  · dsimp only
    split
    · have started (text : Text) (path : Path) := begins (m := { s with shell := s.shell.print text }) ready path
      exact Leaves.after (m := { s with shell := s.shell.print _ }) rfl (started _ _)
    · exact begins ready _

theorem perform (ready : Ready s) (maps : MindsMaps run) {command : ClientCommand}
    (other : putsBack (.own command) = false) : Minds s (perform run command) := by
  cases command with
  | disconnect => exact of_beside .disconnect
  | quit => exact of_beside (.ifFromPlayer (.change fun _ => rfl))
  | writeConfig => exact of_beside (.ifFromPlayer .writeConfig)
  | record =>
    refine (?_ : Minds s (if s.shell.source == .player then Client.record run else pure ()))
    split
    · exact record ready maps
    · exact of_beside (.pure _)
  | stop => exact of_beside (.ifFromPlayer .stopRecording)
  | play => exact of_beside (.ifFromPlayer .play)
  | timeDemo => exact of_beside (.ifFromPlayer .timeDemo)
  | stopDemo => exact of_beside .stopDemo
  | startDemos => cases other
  | demos => cases other

theorem runAction (ready : Ready s) (maps : MindsMaps run) {action : Action ClientCommand}
    (known : ∀ kind, action ≠ .probe kind) (other : putsBack action = false) : Minds s (Host.runAction run action) := by
  cases action with
  | builtin command =>
    have quiet : command ≠ .runArguments := by
      rintro rfl
      cases other
    exact of_standing (Shell.standing_runBuiltin quiet s.shell)
  | script => cases other
  | forward => exact forwardLine
  | probe kind => exact absurd rfl (known kind)
  | own command => exact perform ready maps other

end Minds

theorem Raises.runAction {run : Text → Source → Act Session Unit} {action : Action ClientCommand}
    (back : putsBack action = true) : Raises (Host.runAction run action) := by
  cases action with
  | builtin command =>
    cases command with
    | runArguments => exact runArguments
    | _ => cases back
  | script => exact runScript
  | forward => cases back
  | probe kind => cases back
  | own command =>
    cases command with
    | startDemos => exact startDemos
    | demos => exact resumeDemos
    | _ => cases back

theorem runLine_of_command {s : Session} {text : Text} {source : Source} {action : Action ClientCommand}
    (known : Host.meaning (s.shell.accept text source) = .command action) : Host.runLine text source s =
      Host.runAction (Host.runLineWithin text.length) action { s with shell := s.shell.accept text source } := by
  rw [Host.runLine_eq, known]
  rfl

/-- A line that puts no text back leaves all as it is but for one alias. -/
theorem leaves_runLine {s : Session} (ready : Ready s) {text : Text}
    (other : meansPutBack (Host.meaning (s.shell.accept text .player)) = false) :
    Leaves s (Act.final (Host.runLine text .player s)) := by
  cases known : Host.meaning (s.shell.accept text .player) with
  | command action =>
    let m : Session := { s with shell := s.shell.accept text .player }
    have told : Ready m := ready
    have maps : MindsMaps (Host.runLineWithin text.length : Text → Source → Act Session Unit) :=
      fun word t ready => Minds.runLineWithin _ _ _ (map_names_no_command word ready)
    have minds : Minds m (Host.runAction (Host.runLineWithin text.length) action) := by
      rw [known] at other
      exact .runAction told maps (not_probe_of_meaning told known) other
    rw [runLine_of_command known]
    exact Leaves.after (m := m) rfl minds
  | _ =>
    refine Minds.runLineWithin _ _ _ fun action another => ?_
    rw [known] at another
    cases another

theorem raised_runLine {s : Session} {text : Text} (back : meansPutBack (Host.meaning (s.shell.accept text .player)) = true) :
    Raised s (Act.final (Host.runLine text .player s)) := by
  cases known : Host.meaning (s.shell.accept text .player) with
  | command action =>
    rw [known] at back
    rw [runLine_of_command known]
    exact Raised.after (m := { s with shell := s.shell.accept text .player }) rfl (Raises.runAction back _)
  | _ =>
    rw [known] at back
    cases back

/-- What a line leaves of the room, which is more only if the line is of a command that puts text back. -/
theorem room_runLine {s : Session} (ready : Ready s) (text : Text) :
    (Act.final (Host.runLine text .player s)).shell.room ≤
      s.shell.room + if meansPutBack (Host.meaning (s.shell.accept text .player)) then Shell.pendingLimit else 0 := by
  cases back : meansPutBack (Host.meaning (s.shell.accept text .player)) with
  | false => exact (leaves_runLine ready back).room_le
  | true => exact (raised_runLine back).room_le

/-- The line itself takes room; what it leaves is told by its command. -/
theorem room_round {s m : Session} (ready : Ready s) (ran : Host.round s = .ok true m) :
    m.shell.room + 1 ≤ s.shell.room + if refills s then Shell.pendingLimit else 0 := by
  obtain ⟨found, u, taken, ran⟩ := Act.bind_ok.1 ran
  cases next : s.shell.nextLine with
  | mk line shell =>
    have now : (Host.askShell Shell.nextLine : Act Session (Option Text)) s = .ok line { s with shell } := by
      unfold Host.askShell
      rw [next]
    cases now.symm.trans taken
    cases found with
    | none => cases ran
    | some line =>
      have less := Shell.room_nextLine next
      have known : Ready { s with shell } := by
        have same := s.shell.commands_nextLine
        rw [next] at same
        exact same.trans ready
      unfold refills
      rw [next]
      dsimp only at ran ⊢
      split at ran
      · cases ran
        dsimp only
        omega
      · obtain ⟨_, t, ran, rest⟩ := Act.bind_ok.1 ran
        have left := room_runLine known line
        rw [ran] at left
        rw [Act.bind_get] at rest
        split at rest
        · cases rest
        · cases rest
          have left : m.shell.room ≤ shell.room +
              if meansPutBack (Host.meaning (shell.accept line .player)) then Shell.pendingLimit else 0 := left
          omega

theorem ready_round {s m : Session} {more : Bool} (ready : Ready s) (ran : Host.round s = .ok more m) : Ready m := by
  have conduct := Walks.round ready
  rw [ran] at conduct
  cases conduct with
  | ok deeds => exact deeds.moves.ready ready

namespace Rounds

variable {s m t : Session} {lines back : Nat}

theorem room_le (rounds : Rounds s lines back t) (ready : Ready s) :
    lines + t.shell.room ≤ s.shell.room + Shell.pendingLimit * back := by
  induction rounds with
  | none => simp
  | other onward ran _ ih =>
    have less := room_round ready ran
    have rest := ih (ready_round ready ran)
    rw [onward] at less
    simp only [Bool.false_eq_true, if_false] at less
    omega
  | back again ran _ ih =>
    have less := room_round ready ran
    have rest := ih (ready_round ready ran)
    rw [again] at less
    simp only [if_true] at less
    rw [Nat.mul_succ]
    omega

theorem runPending (rounds : Rounds s lines back t) (budget : Nat) :
    Host.runPending (lines + budget) s = Host.runPending budget t := by
  induction rounds with
  | none => rw [Nat.zero_add]
  | other _ ran _ ih | back _ ran _ ih =>
    rw [Nat.add_right_comm, Host.runPending_succ, Act.bind_of_ok ran, if_pos rfl]
    exact ih

theorem snoc (rounds : Rounds s lines back t) (ran : Host.round t = .ok true m) :
    ∃ more, Rounds s (lines + 1) more m := by
  induction rounds with
  | @none t =>
    cases again : refills t with
    | false => exact ⟨0, .other again ran .none⟩
    | true => exact ⟨1, .back again ran .none⟩
  | other onward first _ ih =>
    obtain ⟨more, rest⟩ := ih ran
    exact ⟨more, .other onward first rest⟩
  | back again first _ ih =>
    obtain ⟨more, rest⟩ := ih ran
    exact ⟨more + 1, .back again first rest⟩

theorem back_le {others again : Nat} {u : Session} (rounds : Rounds s lines back t)
    (last : ∀ m, Host.round t ≠ .ok true m) (further : Rounds s others again u) : again ≤ back := by
  induction rounds generalizing others again with
  | none =>
    cases further with
    | none => exact Nat.le_refl 0
    | other _ ran _ | back _ ran _ => exact absurd ran (last _)
  | other onward ran _ ih =>
    cases further with
    | none => exact Nat.zero_le _
    | other _ ran' rest =>
      cases ran.symm.trans ran'
      exact ih last rest
    | back called _ _ => exact nomatch onward.symm.trans called
  | back called ran _ ih =>
    cases further with
    | none => exact Nat.zero_le _
    | other onward _ _ => exact nomatch onward.symm.trans called
    | back _ ran' rest =>
      cases ran.symm.trans ran'
      exact Nat.succ_le_succ (ih last rest)

end Rounds

theorem rounds_of_endless {s : Session} (endless : ¬ Ends s) (lines : Nat) : ∃ back t, Rounds s lines back t := by
  induction lines with
  | zero => exact ⟨0, s, .none⟩
  | succ lines ih =>
    obtain ⟨back, t, rounds⟩ := ih
    by_cases last : ∀ m, Host.round t ≠ .ok true m
    · exact absurd ⟨lines, back, t, rounds, last⟩ endless
    · obtain ⟨m, ran⟩ : ∃ m, Host.round t = .ok true m := by simpa using last
      obtain ⟨more, further⟩ := rounds.snoc ran
      exact ⟨more, m, further⟩

theorem Ends.outcome {s : Session} (ends : Ends s) :
    ∃ lines outcome, ∀ more, Host.runPending (lines + more) s = outcome := by
  obtain ⟨lines, back, t, rounds, last⟩ := ends
  cases ran : Host.round t with
  | ok more m =>
    cases more with
    | true => exact absurd ran (last m)
    | false =>
      refine ⟨lines + 1, .ok () m, fun more => ?_⟩
      rw [Nat.add_assoc, rounds.runPending, Nat.add_comm, Host.runPending_succ, Act.bind_of_ok ran]
      rfl
  | error fault m =>
    refine ⟨lines + 1, .error fault m, fun more => ?_⟩
    rw [Nat.add_assoc, rounds.runPending, Nat.add_comm, Host.runPending_succ, Act.bind_of_error ran]

/-- The lines of a frame run one after another, and how many there are is bounded by how many of them are of commands
that put text back. They come to an end exactly if these do. -/
theorem lines_end_iff {s : Session} (ready : Ready s) :
    (∀ lines back t, Rounds s lines back t →
      (∀ budget, Host.runPending (lines + budget) s = Host.runPending budget t) ∧
        lines + t.shell.room ≤ s.shell.room + Shell.pendingLimit * back) ∧
    (Ends s → ∃ lines outcome, ∀ more, Host.runPending (lines + more) s = outcome) ∧
    (Ends s ↔ ∃ most, ∀ lines back t, Rounds s lines back t → back ≤ most) := by
  refine ⟨fun lines back t rounds => ⟨rounds.runPending, rounds.room_le ready⟩, Ends.outcome, ?_⟩
  constructor
  · rintro ⟨lines, back, t, rounds, last⟩
    exact ⟨back, fun _ _ _ further => rounds.back_le last further⟩
  · rintro ⟨most, bounded⟩
    by_contra endless
    obtain ⟨back, t, rounds⟩ := rounds_of_endless endless (s.shell.room + Shell.pendingLimit * most + 1)
    have long := rounds.room_le ready
    have few := Nat.mul_le_mul_left Shell.pendingLimit (bounded _ _ _ rounds)
    omega

/-- A session in which the line that runs the program's arguments waits, and the only argument is that line again. -/
def selfCalling : Session :=
  { shell := { (Shell.empty Console.captured : Shell ClientCommand) with
      commands := commandTable, pending := "stuffcmds\n", arguments := ["q", "+stuffcmds"], line := Line.ofText "stuffcmds" }
    world := Client.start (SearchPath.ofBase "/") (Disk.empty []) }

set_option maxRecDepth 20000 in
theorem round_selfCalling : Host.round selfCalling = .ok true selfCalling := rfl

theorem rounds_selfCalling (lines : Nat) : Rounds selfCalling lines lines selfCalling := by
  induction lines with
  | zero => exact .none
  | succ lines ih => exact .back (by decide +kernel) round_selfCalling ih

theorem selfCalling_endless : (∀ lines, Rounds selfCalling lines lines selfCalling) ∧ ¬ Ends selfCalling := by
  refine ⟨rounds_selfCalling, fun ends => ?_⟩
  obtain ⟨most, bounded⟩ := (lines_end_iff (s := selfCalling) rfl).2.2.1 ends
  have longer := bounded (most + 1) (most + 1) selfCalling (rounds_selfCalling _)
  omega

end GameHost.Client
