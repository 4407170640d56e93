import GameHost.Proofs.Client.Forwarding
import GameHost.Proofs.Client.Rounds
import GameHost.Proofs.Shell.Splitting

/-!
Aliases that call one another cannot go on for ever. In one call fewer of their values than the limit are put where text
waits, whatever the lines are. If no line is of a command that puts text back, the lines come to an end: no text is left,
a line leaves the host paused, or there was no room for a line that is for the server.
-/
namespace GameHost.Client
open GameHost.Host (begun queue round)
open GameHost.Message (Buffer Writing)
open GameHost.Shell (Begins ended)

/-- What stops a line for which a message has no room. -/
def Unfit (fault : Fault) : Prop := fault = .overflow ∨ ∃ length, fault = .oversized length

/-- An action that fails for nothing else there. -/
def FailsUnfit {σ α : Type} (s : σ) (act : Act σ α) : Prop := ∀ fault t, act s = .error fault t → Unfit fault

namespace FailsUnfit

variable {σ α β : Type}

theorem of_ok {s t : σ} {act : Act σ α} {a : α} (ran : act s = .ok a t) : FailsUnfit s act := by
  intro fault u failed
  cases ran.symm.trans failed

theorem pure {s : σ} (a : α) : FailsUnfit s (pure a : Act σ α) := of_ok rfl

theorem bind {s : σ} {act : Act σ α} {next : α → Act σ β} (first : FailsUnfit s act)
    (second : ∀ a m, act s = .ok a m → FailsUnfit m (next a)) : FailsUnfit s (act >>= next) := by
  intro fault t failed
  rcases Act.bind_error.1 failed with here | ⟨a, m, ran, later⟩
  · exact first fault t here
  · exact second a m ran fault t later

theorem writing (writing : Writing) (b : Buffer) : FailsUnfit b writing.act := by
  intro fault t failed
  rcases ((writing.added b).failed fault t failed).2 with full | long
  · exact .inl full
  · exact .inr ⟨_, long⟩

theorem append (text : Text) (b : Buffer) : FailsUnfit b (Buffer.append text) := writing (.append text) b

theorem addCommand (line : Line) (b : Buffer) : FailsUnfit b (addCommand line) := by
  rw [addCommand_eq]
  refine bind ?_ fun _ m _ => append _ m
  unfold opening
  refine bind (writing (.byte textCommand) b) fun _ m _ => ?_
  split
  · exact bind (append _ m) fun _ n _ => append _ n
  · exact pure _

variable {s : Session} {run : Text → Source → Act Session Unit}

theorem print (text : Text) : FailsUnfit s (print text) := of_ok rfl

theorem onShell (f : Shell ClientCommand → Shell ClientCommand) : FailsUnfit s (Host.onShell f) := of_ok rfl

theorem change (f : Client → Client) : FailsUnfit s (change f) := of_ok rfl

theorem ask_bind {next : Client → Act Session β} (there : FailsUnfit s (next s.world)) : FailsUnfit s (ask >>= next) := there

theorem line_bind {next : Line → Act Session β} (there : FailsUnfit s (next s.shell.line)) :
    FailsUnfit s (line >>= next) := there

theorem forwardLine : FailsUnfit s forwardLine := by
  refine ask_bind (line_bind ?_)
  split
  · exact print _
  · split
    · intro fault t failed
      obtain ⟨queue, failed, _⟩ := Act.within_error.1 failed
      exact addCommand _ _ fault queue failed
    · exact pure _

theorem hostForwardLine : FailsUnfit s (Host.forwardLine : Act Session Unit) := by
  change FailsUnfit s (if s.shell.source == .player then Client.forwardLine else Pure.pure ())
  split
  · exact forwardLine
  · exact pure _

theorem runUnknown : FailsUnfit s (Host.runUnknown : Act Session Unit) := by
  change FailsUnfit s (if _ then Client.forwardLine else Client.print _)
  split
  · exact forwardLine
  · exact print _

theorem runLineWithin (depth : Nat) (text : Text) (source : Source)
    (idle : ∀ action, Host.meaning (s.shell.accept text source) ≠ .command action) :
    FailsUnfit s (Host.runLineWithin (depth + 1) text source) := by
  let m : Session := { s with shell := s.shell.accept text source }
  have meant : FailsUnfit m (Host.runMeaning (Host.runLineWithin depth) (Host.meaning m.shell)) := by
    cases means : Host.meaning m.shell with
    | nothing => exact pure _
    | command action => exact absurd means (idle action)
    | «alias» value => exact onShell _
    | «variable» => exact of_ok rfl
    | unknown => exact runUnknown
  intro fault t failed
  rw [Host.runLineWithin_succ] at failed
  exact meant fault t failed

theorem stopPlayback : FailsUnfit s stopPlayback := of_ok (stopPlayback_spec s).choose_spec.1

theorem stopRecording : FailsUnfit s stopRecording := of_ok (stopRecording_spec s).choose_spec.1

theorem disconnect : FailsUnfit s disconnect := of_ok (disconnect_spec s).choose_spec.1

theorem beginRecording (path : Path) (track : Int32) : FailsUnfit s (beginRecording path track) :=
  of_ok (beginRecording_spec path track s).choose_spec.1

theorem writeConfig : FailsUnfit s writeConfig := of_ok (writeConfig_spec s).choose_spec.1

theorem playDemo (name : Text) : FailsUnfit s (playDemo name) := of_ok (playDemo_spec name s).choose_spec.choose_spec.1

theorem demoNamed (usage : Text) : FailsUnfit s (demoNamed usage) := by
  apply line_bind
  split
  · exact pure _
  · exact bind (print _) fun _ _ _ => pure _

theorem play : FailsUnfit s play := by
  apply bind (demoNamed _)
  intro named m _
  split
  · exact bind (playDemo _) fun _ _ _ => pure _
  · exact pure _

theorem timeDemo : FailsUnfit s timeDemo := by
  apply bind (demoNamed _)
  intro named m _
  split
  · apply bind (playDemo _)
    intro opened t _
    split
    · exact change _
    · exact pure _
  · exact pure _

theorem stopDemo : FailsUnfit s stopDemo := by
  apply ask_bind
  split
  · exact bind stopPlayback fun _ _ _ => disconnect
  · exact pure _

theorem ifFromPlayer {act : Act Session Unit} (fails : FailsUnfit s act) : FailsUnfit s (ifFromPlayer act) := by
  change FailsUnfit s (if s.shell.source == .player then act else Pure.pure ())
  split
  · exact fails
  · exact pure _

theorem record (ready : Ready s) (maps : ∀ word m, Ready m → FailsUnfit m (run ("map " ++ word) .player)) :
    FailsUnfit s (record run) := by
  have begins {m : Session} (known : Ready m) (path : Path) : FailsUnfit m (if 2 < s.shell.line.count then (do
      run ("map " ++ s.shell.line.word 2) .player
      Client.beginRecording path (trackAsked s.shell.line))
      else Client.beginRecording path (trackAsked s.shell.line)) := by
    split
    · exact bind (maps _ m known) fun _ _ _ => beginRecording _ _
    · exact beginRecording _ _
  unfold Client.record
  refine line_bind (ask_bind ?_)
  split
  · exact print _
  · dsimp only
    split
    · refine bind (print _) fun _ m ran => begins ?_ _
      cases ran
      exact ready
    · exact begins ready _

theorem perform (ready : Ready s) (maps : ∀ word m, Ready m → FailsUnfit m (run ("map " ++ word) .player))
    {command : ClientCommand} (other : putsBack (.own command) = false) : FailsUnfit s (perform run command) := by
  cases command with
  | disconnect => exact disconnect
  | quit => exact ifFromPlayer (change _)
  | writeConfig => exact ifFromPlayer writeConfig
  | record => exact ifFromPlayer (record ready maps)
  | stop => exact ifFromPlayer stopRecording
  | play => exact ifFromPlayer play
  | timeDemo => exact ifFromPlayer timeDemo
  | stopDemo => exact stopDemo
  | startDemos => cases other
  | demos => cases other

/-- A line of no command that puts text back fails only where it is for the server. -/
theorem runLine (ready : Ready s) {text : Text}
    (other : meansPutBack (Host.meaning (s.shell.accept text .player)) = false) :
    FailsUnfit s (Host.runLine text .player) := by
  cases known : Host.meaning (s.shell.accept text .player) with
  | command action =>
    let m : Session := { s with shell := s.shell.accept text .player }
    have told : Ready m := ready
    have maps (word : Text) (t : Session) (ready : Ready t) :
        FailsUnfit t (Host.runLineWithin text.length ("map " ++ word) .player) := by
      cases text with
      | nil => cases known
      | cons c text => exact runLineWithin _ _ _ (map_names_no_command word ready)
    have acted : FailsUnfit m (Host.runAction (Host.runLineWithin text.length) action) := by
      rw [known] at other
      cases action with
      | builtin command => exact onShell _
      | script => cases other
      | forward => exact hostForwardLine
      | probe kind => exact absurd rfl (not_probe_of_meaning told known kind)
      | own command => exact perform told maps other
    intro fault t failed
    rw [runLine_of_command known] at failed
    exact acted fault t failed
  | _ =>
    refine runLineWithin _ _ _ fun action another => ?_
    rw [known] at another
    cases another

end FailsUnfit

/-- Lines run one after another, each with another to follow: the states before them, and the one they lead to. -/
inductive Series : Session → List Session → Session → Prop where
  | none {s : Session} : Series s [] s
  | line {s m t : Session} {later : List Session} (ran : round s = .ok true m) (more : Series m later t) :
      Series s (s :: later) t

/-- Whether the next line changes what waits behind it, and is not of a command that puts text back. -/
def putsValue (s : Session) : Bool :=
  match s.shell.nextLine with
  | (some line, shell) =>
    !(Text.trim line).isEmpty && !refills s &&
      (Act.final (Host.runLine line .player { s with shell })).shell.pending != shell.pending
  | (none, _) => false

/-- How a call comes to its end with the next line: there is none, it leaves the host paused, or it fails for want of
room in a message. -/
inductive Stop (s : Session) : EStateM.Result Fault Session Unit → Prop where
  | usedUp (none : s.shell.pending = []) : Stop s (.ok () s)
  | paused {line rest : Text} {m : Session} (begins : Begins s.shell.pending line rest)
      (ran : Host.runLine line .player (s.queue rest) = .ok () m) (set : m.shell.paused = true) : Stop s (.ok () m.goOn)
  | failed {line rest : Text} {fault : Fault} {m : Session} (begins : Begins s.shell.pending line rest)
      (ran : Host.runLine line .player (s.queue rest) = .error fault m) (cause : Unfit fault) : Stop s (.error fault m)

section

variable {s m t : Session} {line rest : Text}

theorem refills_begins (begins : Begins s.shell.pending line rest) :
    refills s = meansPutBack (Host.meaning ((s.queue rest).shell.accept line .player)) := by
  unfold refills
  rw [Shell.nextLine_begins begins]
  rfl

theorem putsValue_begins (begins : Begins s.shell.pending line rest) (wordy : (Text.trim line).isEmpty = false) :
    putsValue s = (!refills s && (Act.final (Host.runLine line .player (s.queue rest))).shell.pending != rest) := by
  unfold putsValue
  rw [Shell.nextLine_begins begins]
  dsimp only
  rw [wordy]
  rfl

/-- What is put where text waits is the value of an alias, and it is not the last that may be expanded. -/
theorem value_put (ready : Ready s) (begins : Begins s.shell.pending line rest) (puts : putsValue s = true) :
    ∃ entry ∈ s.shell.aliases, (Act.final (Host.runLine line .player (s.queue rest))).shell.waiting =
      (ended entry.2 ++ rest, s.shell.expansions + 1) ∧ s.shell.expansions + 1 < Host.expansionLimit := by
  have wordy : (Text.trim line).isEmpty = false := by
    unfold putsValue at puts
    rw [Shell.nextLine_begins begins] at puts
    cases blank : (Text.trim line).isEmpty with
    | false => rfl
    | true => simp [blank] at puts
  rw [putsValue_begins begins wordy, refills_begins begins] at puts
  obtain ⟨other, changed⟩ : meansPutBack (Host.meaning ((s.queue rest).shell.accept line .player)) = false ∧
      (Act.final (Host.runLine line .player (s.queue rest))).shell.pending ≠ rest := by simpa using puts
  have leaves : Leaves (s.queue rest) _ := leaves_runLine (s := s.queue rest) ready other
  cases leaves with
  | same waiting => exact absurd (congrArg Prod.fst waiting) changed
  | @called entry listed waiting =>
    rw [Shell.waiting_expand] at waiting
    refine ⟨entry, listed, ?_⟩
    by_cases early : (s.queue rest).shell.expansions + 1 < Host.expansionLimit ∧
        (s.queue rest).shell.hasRoom (ended entry.2) = true
    · rw [if_pos early] at waiting
      exact ⟨waiting, early.1⟩
    · rw [if_neg early] at waiting
      exact absurd (congrArg Prod.fst waiting) changed

theorem early_of_puts (ready : Ready s) (puts : putsValue s = true) : s.shell.expansions + 1 < Host.expansionLimit := by
  by_cases none : s.shell.pending = []
  · unfold putsValue at puts
    rw [Shell.nextLine_empty none] at puts
    cases puts
  · obtain ⟨line, rest, begins⟩ := Shell.exists_begins none
    obtain ⟨_, _, _, early⟩ := value_put ready begins puts
    exact early

/-- A line that another follows: it is blank, or it runs well and does not pause. -/
theorem goes_on (ran : round s = .ok true m) : ∃ line rest, Begins s.shell.pending line rest ∧
    ((Text.trim line).isEmpty = true ∧ m = s.queue rest ∨
      (Text.trim line).isEmpty = false ∧ Host.runLine line .player (s.queue rest) = .ok () m) := by
  by_cases none : s.shell.pending = []
  · rw [Host.round_usedUp none] at ran
    cases ran
  obtain ⟨line, rest, begins⟩ := Shell.exists_begins none
  refine ⟨line, rest, begins, ?_⟩
  cases blank : (Text.trim line).isEmpty with
  | true =>
    rw [Host.round_blank begins blank] at ran
    cases ran
    exact .inl ⟨rfl, rfl⟩
  | false =>
    rw [Host.round_wordy begins blank] at ran
    cases outcome : Host.runLine line .player (s.queue rest) with
    | error fault n =>
      rw [outcome] at ran
      cases ran
    | ok done n =>
      rw [outcome] at ran
      dsimp only at ran
      split at ran
      · cases ran
      · cases ran
        exact .inr ⟨rfl, rfl⟩

/-- Aliases are only counted up, and each whose value is put where text waits is counted. -/
theorem expansions_round (ready : Ready s) (ran : round s = .ok true m) :
    s.shell.expansions + (if putsValue s then 1 else 0) ≤ m.shell.expansions := by
  obtain ⟨line, rest, begins, ⟨blank, rfl⟩ | ⟨wordy, ran⟩⟩ := goes_on ran
  · have idle : putsValue s = false := by
      unfold putsValue
      rw [Shell.nextLine_begins begins]
      simp [blank]
    rw [idle]
    exact Nat.le_refl _
  · cases back : refills s with
    | true =>
      have idle : putsValue s = false := by rw [putsValue_begins begins wordy, back]; rfl
      have raised := raised_runLine (refills_begins begins ▸ back)
      rw [ran] at raised
      rw [idle, show m.shell.expansions = s.shell.expansions from raised.expansions]
      exact Nat.le_refl _
    | false =>
      cases puts : putsValue s with
      | true =>
        obtain ⟨entry, _, waiting, _⟩ := value_put ready begins puts
        rw [ran] at waiting
        exact Nat.le_of_eq (congrArg Prod.snd waiting).symm
      | false =>
        have leaves : Leaves (s.queue rest) _ := leaves_runLine (s := s.queue rest) ready (refills_begins begins ▸ back)
        rw [ran] at leaves
        cases leaves with
        | same waiting => exact Nat.le_of_eq (congrArg Prod.snd waiting).symm
        | called _ waiting =>
          rw [Shell.waiting_expand] at waiting
          rw [show m.shell.expansions = s.shell.expansions + 1 from congrArg Prod.snd waiting]
          exact Nat.le_succ _

end

namespace Series

variable {s m t : Session} {states : List Session}

theorem ready (series : Series s states t) (known : Ready s) : Ready t := by
  induction series with
  | none => exact known
  | line ran _ ih => exact ih (ready_round known ran)

theorem runPending (series : Series s states t) (budget : Nat) :
    Host.runPending (states.length + budget) s = Host.runPending budget t := by
  induction series with
  | none => rw [List.length_nil, Nat.zero_add]
  | line ran _ ih =>
    rw [List.length_cons, Nat.add_right_comm, Host.runPending_round, ran]
    exact ih

/-- The last value that is put where text waits is not counted past the limit, so neither are those before it. -/
theorem values (series : Series s states t) (known : Ready s) : (states ++ [t]).countP putsValue = 0 ∨
    s.shell.expansions + (states ++ [t]).countP putsValue < Host.expansionLimit := by
  induction series with
  | @none s =>
    cases puts : putsValue s with
    | false => exact .inl (by simp [puts])
    | true => exact .inr (by simpa [puts] using early_of_puts known puts)
  | @line s m t later ran _ ih =>
    have grown := expansions_round known ran
    have rest := ih (ready_round known ran)
    rw [List.cons_append, List.countP_cons]
    cases puts : putsValue s with
    | false =>
      rw [puts] at grown
      simp only [Bool.false_eq_true, if_false] at grown ⊢
      omega
    | true =>
      have early := early_of_puts known puts
      rw [puts] at grown
      simp only [if_true] at grown ⊢
      omega

/-- Once a series has come to its end, every other one from the same state is a beginning of it. -/
theorem beginning {others : List Session} {u : Session} (series : Series s states t) (last : ∀ m, round t ≠ .ok true m)
    (other : Series s others u) : others ++ [u] <+: states ++ [t] := by
  induction series generalizing others with
  | none =>
    cases other with
    | none => exact List.prefix_rfl
    | line ran _ => exact absurd ran (last _)
  | line ran _ ih =>
    cases other with
    | none => exact List.prefix_append [_] _
    | line again rest =>
      cases ran.symm.trans again
      exact List.cons_prefix_cons.2 ⟨rfl, ih last rest⟩

/-- Where no line puts text back, every line takes from the room there is. -/
theorem ends (known : Ready s) (calm : ∀ states t, Series s states t → refills t = false) :
    ∃ states t, Series s states t ∧ (∀ m, round t ≠ .ok true m) ∧ states.length ≤ s.shell.room := by
  induction size : s.shell.room using Nat.strong_induction_on generalizing s with
  | _ size ih =>
    by_cases last : ∀ m, round s ≠ .ok true m
    · exact ⟨[], s, .none, last, Nat.zero_le _⟩
    obtain ⟨m, ran⟩ : ∃ m, round s = .ok true m := by simpa using last
    have less := room_round known ran
    rw [calm [] s .none] at less
    simp only [Bool.false_eq_true, if_false] at less
    have later (states : List Session) (t : Session) (more : Series m states t) : refills t = false :=
      calm _ t (.line ran more)
    obtain ⟨states, t, series, last, few⟩ := ih _ (by omega) (ready_round known ran) later rfl
    refine ⟨s :: states, t, .line ran series, last, ?_⟩
    rw [List.length_cons]
    omega

end Series

/-- The last line of a call brings it to its end. -/
theorem stops {t : Session} (ready : Ready t) (calm : refills t = false) (last : ∀ m, round t ≠ .ok true m) :
    ∃ outcome, Stop t outcome ∧ ∀ budget, Host.runPending (budget + 1) t = outcome := by
  by_cases none : t.shell.pending = []
  · exact ⟨_, .usedUp none, fun budget => Host.runPending_usedUp none _⟩
  obtain ⟨line, rest, begins⟩ := Shell.exists_begins none
  cases blank : (Text.trim line).isEmpty with
  | true => exact absurd (Host.round_blank begins blank) (last _)
  | false =>
    have passed := Host.round_wordy begins blank
    cases ran : Host.runLine line .player (t.queue rest) with
    | error fault m =>
      rw [ran] at passed
      have cause := FailsUnfit.runLine (s := t.queue rest) ready (refills_begins begins ▸ calm) fault m ran
      refine ⟨_, .failed begins ran cause, fun budget => ?_⟩
      rw [Host.runPending_round, passed]
    | ok done m =>
      rw [ran] at passed
      dsimp only at passed
      cases set : m.shell.paused with
      | false =>
        rw [set] at passed
        exact absurd passed (last m)
      | true =>
        rw [set] at passed
        refine ⟨_, .paused begins ran set, fun budget => ?_⟩
        rw [Host.runPending_round, passed]
        rfl

/-- Whatever the aliases are, and however the lines of a call change them, fewer of their values are put where text
waits than the limit. And if none of the lines is of a command that puts text back, there are not too many lines before
the call comes to its end. -/
theorem alias_loops_cut_off {s : Session} (ready : Ready s) (short : Text.size s.shell.pending < Shell.pendingLimit) :
    (∀ states t, Series s.begun states t → (states ++ [t]).countP putsValue < Host.expansionLimit ∧
      ∀ line rest, Begins t.shell.pending line rest → putsValue t = true → ∃ entry ∈ t.shell.aliases,
        (Act.final (Host.runLine line .player (t.queue rest))).shell.pending = ended entry.2 ++ rest) ∧
    ((∀ states t, Series s.begun states t → refills t = false) → ∃ states t outcome, Series s.begun states t ∧
      Stop t outcome ∧ Host.tick s = outcome ∧
      states.length ≤ s.shell.pending.length + Shell.pendingLimit * (Host.expansionLimit - 1)) := by
  have begun : Ready s.begun := ready
  constructor
  · intro states t series
    constructor
    · rcases series.values begun with none | few
      · rw [none]
        decide
      · exact Nat.lt_of_le_of_lt (Nat.le_add_left _ _) few
    · intro line rest begins puts
      obtain ⟨entry, listed, waiting, _⟩ := value_put (series.ready begun) begins puts
      exact ⟨entry, listed, congrArg Prod.fst waiting⟩
  · intro calm
    obtain ⟨states, t, series, last, few⟩ := Series.ends begun calm
    obtain ⟨outcome, stop, ran⟩ := stops (series.ready begun) (calm _ t series) last
    refine ⟨states, t, outcome, series, stop, ?_, few⟩
    have length := Text.length_le_size s.shell.pending
    have room : s.begun.shell.room = s.shell.pending.length + Shell.pendingLimit * (Host.expansionLimit - 1) := rfl
    have least : 2 * Shell.pendingLimit * Host.expansionLimit < Host.lineBudget := by decide
    obtain ⟨more, budget⟩ : ∃ more, Host.lineBudget = states.length + (more + 1) := by
      refine ⟨Host.lineBudget - states.length - 1, ?_⟩
      simp only [Shell.pendingLimit, Host.expansionLimit] at least short room
      omega
    change Host.runPending Host.lineBudget s.begun = outcome
    rw [budget, series.runPending, ran]

/-- The series of so many lines, or of all that there are. -/
def follow : Nat → Session → List Session × Session
  | 0, s => ([], s)
  | fuel + 1, s =>
    match round s with
    | .ok true m => (s :: (follow fuel m).1, (follow fuel m).2)
    | _ => ([], s)

theorem series_follow (fuel : Nat) (s : Session) : Series s (follow fuel s).1 (follow fuel s).2 := by
  induction fuel generalizing s with
  | zero => exact .none
  | succ fuel ih =>
    unfold follow
    split
    · rename_i m ran
      exact .line ran (ih m)
    · exact .none

/-- Two aliases that call each other, with a line that redefines the first of them. -/
def cycling : Session :=
  { shell := { (Shell.empty Console.captured : Shell ClientCommand) with
      commands := commandTable
      aliases := [("first", "second\n"), ("second", "first;alias first \"first;first\"\n")]
      pending := "first;echo done" }
    world := Client.start (SearchPath.ofBase "/") (Disk.empty []) }

theorem cycling_cut_off : (∃ states t, Series cycling.begun states t ∧
      (states ++ [t]).countP putsValue = Host.expansionLimit - 1) ∧
    ∃ states t outcome, Series cycling.begun states t ∧ Stop t outcome ∧ Host.tick cycling = outcome := by
  obtain ⟨_, ends⟩ := alias_loops_cut_off (s := cycling) rfl (by decide +kernel)
  have series := series_follow 30 cycling.begun
  have none : (follow 30 cycling.begun).2.shell.pending = [] := by decide +kernel
  have last (m : Session) : round (follow 30 cycling.begun).2 ≠ .ok true m := by simp [Host.round_usedUp none]
  have quiet : ((follow 30 cycling.begun).1 ++ [(follow 30 cycling.begun).2]).all (fun u => !refills u) = true := by
    decide +kernel
  refine ⟨⟨_, _, series, by decide +kernel⟩, ?_⟩
  obtain ⟨states, t, outcome, run, stop, ran, _⟩ := ends fun others u other => by
    have member : u ∈ _ := (series.beginning last other).subset (List.mem_append_right _ (List.mem_singleton_self u))
    simpa using List.all_eq_true.1 quiet u member
  exact ⟨states, t, outcome, run, stop, ran⟩

end GameHost.Client
