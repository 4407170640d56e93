import GameHost.Proofs.Client.AliasLoops
import GameHost.Proofs.Client.Remote
import GameHost.Proofs.Client.Shielded
import GameHost.Proofs.Shell.Expansion

/-!
Aliases are macros in place. A call whose lines print, set variables, call aliases or name nothing does what a call does
with the same text in which every line that calls an alias is replaced by the lines of its value, and these again. Both
calls use their text up unless a line that goes to the server is as long as the queue is.
-/
namespace GameHost.Client
open GameHost.Host (Meaning begun queue round)
open GameHost.Message (Buffer Writing)
open GameHost.Shell (Begins Expanded ended)

/-- What neither pauses, nor changes commands and aliases, nor queues text but the value of an alias. -/
def mild : Meaning ClientCommand → Bool
  | .command (.builtin .echo) | .command (.builtin .setVariable) => true
  | .command _ => false
  | _ => true

/-- Whether the next line calls an alias. -/
def callsAlias (s : Session) : Bool :=
  match s.shell.nextLine with
  | (some line, shell) => (shell.value? line).isSome
  | (none, _) => false

/-- Whether the next line is mild, and has room for the value if it calls an alias. -/
def passable (s : Session) : Bool :=
  match s.shell.nextLine with
  | (some line, shell) => (Text.trim line).isEmpty || mild (Host.meaning (shell.accept line .player)) &&
      (shell.value? line).all (fun value => shell.hasRoom (ended value))
  | (none, _) => true

/-- The lines of a call are mild, and its aliases are few enough and have room. Lines for the server go to the queue that
the client is made with. -/
structure InPlace (s : Session) : Prop where
  running : s.shell.paused = false
  forgiving : s.world.outgoing.forgiving = true
  capacity : s.world.outgoing.capacity = outgoingLimit
  mild : ∀ line u, Comes s line u → mild (Host.meaning (u.shell.accept line .player)) = true
  few : ∀ states t, Series s states t → s.shell.expansions + (states ++ [t]).countP callsAlias < Host.expansionLimit
  roomy : ∀ line u value, Comes s line u → u.shell.value? line = some value → u.shell.hasRoom (ended value) = true

/-- A line for the server whose tail is as long as the queue. -/
structure Oversized (s : Session) (line : Text) : Prop where
  live : s.world.connected = true
  quiet : s.world.playing = false
  forwarded : Forwarded s line
  long : 1 < (Line.ofText line).count ∧ outgoingLimit ≤ Text.size (Line.ofText line).tail

/-- All of a session but what waits, how many aliases were expanded, and which line was run last. -/
def apart (s : Session) : Session :=
  { s with shell := { s.shell with pending := [], expansions := 0, line := Line.empty, source := .player } }

/-- Two calls come out alike: both use their text up, or both fail for the same reason. -/
inductive Agree : EStateM.Result Fault Session Unit → EStateM.Result Fault Session Unit → Prop where
  | ok {t u : Session} (same : apart u = apart t) (empty : t.shell.pending = []) (too : u.shell.pending = []) :
    Agree (.ok () t) (.ok () u)
  | error {fault : Fault} {t u : Session} (same : apart u = apart t) : Agree (.error fault t) (.error fault u)

/-- What no mild line changes by itself. -/
structure Lasting where
  paused : Bool
  commands : NameTable (Action ClientCommand)
  aliases : NameTable Text
  capacity : Nat
  forgiving : Bool

def lasting (s : Session) : Lasting :=
  { paused := s.shell.paused
    commands := s.shell.commands
    aliases := s.shell.aliases
    capacity := s.world.outgoing.capacity
    forgiving := s.world.outgoing.forgiving }

/-- The session with other text that waits and another count of aliases. -/
def shade (waiting : Text) (expansions : Nat) (s : Session) : Session :=
  { s with shell := { s.shell with pending := waiting, expansions } }

theorem unseen_shade (waiting : Text) (expansions : Nat) :
    Unseen fun s => { s with pending := waiting, expansions := expansions } where
  console _ := rfl
  vars _ := rfl
  announcements _ := rfl
  update _ _ _ _ := rfl
  line _ := rfl
  source _ := rfl

theorem steady_addCommand (line : Line) : Act.Keeps (fun b : Buffer => (b.capacity, b.forgiving)) (addCommand line) := by
  have writing (w : Writing) : Act.Keeps (fun b : Buffer => (b.capacity, b.forgiving)) w.act :=
    fun b => Prod.ext (w.added b).steady.capacity (w.added b).steady.forgiving
  rw [addCommand_eq]
  refine .bind ?_ fun _ => writing (.append _)
  refine .bind (writing (.byte textCommand)) fun _ => ?_
  split
  · exact .bind (writing (.append _)) fun _ => writing (.append _)
  · exact .pure _

section

variable {run : Text → Source → Act Session Unit} {meaning : Meaning ClientCommand}

theorem lasting_forwardLine : Act.Keeps lasting forwardLine := by
  refine .ask_bind fun c => .line_bind fun line => ?_
  split
  · exact fun _ => rfl
  · split
    · intro s
      have steady := steady_addCommand line s.world.outgoing
      change lasting (Act.final (Act.within _ _ (addCommand line) s)) = _
      unfold Act.within
      dsimp only
      cases added : addCommand line s.world.outgoing with
      | ok _ queue =>
        rw [added] at steady
        exact congrArg (fun pair => { lasting s with capacity := pair.1, forgiving := pair.2 }) steady
      | error fault queue =>
        rw [added] at steady
        exact congrArg (fun pair => { lasting s with capacity := pair.1, forgiving := pair.2 }) steady
    · exact .pure _

/-- A mild line that calls no alias changes none of what lasts. -/
theorem lasting_runMeaning (gentle : mild meaning = true) (other : ∀ value, meaning ≠ .alias value) :
    Act.Keeps lasting (Host.runMeaning run meaning) := by
  have only {change : Shell ClientCommand → Shell ClientCommand} (changes : ∀ shell, ∃ console vars announcements,
      change shell = { shell with console, vars, announcements }) :
      Act.Keeps lasting (Host.onShell change : Act Session Unit) := by
    intro s
    obtain ⟨console, vars, announcements, same⟩ := changes s.shell
    change lasting { s with shell := change s.shell } = _
    rw [same]
    rfl
  match meaning, gentle with
  | .nothing, _ => exact .pure _
  | .command (.builtin .echo), _ => exact fun _ => rfl
  | .command (.builtin .setVariable), _ => exact only Shell.runSet_only
  | .alias value, _ => exact absurd rfl (other value)
  | .variable, _ =>
    exact only fun shell => Shell.useVariable_only (shell.line.word 0) (shell.line.word 1) shell.line.count shell
  | .unknown, _ =>
    refine .get_bind fun s => ?_
    dsimp only
    split
    · exact lasting_forwardLine
    · exact fun _ => rfl

/-- Nor does it look at what waits. -/
theorem commutes_runMeaning (gentle : mild meaning = true) (other : ∀ value, meaning ≠ .alias value) (waiting : Text)
    (expansions : Nat) : Act.Commutes (shade waiting expansions) (Host.runMeaning run meaning) := by
  have aloof := (unseen_shade waiting expansions).toAloof
  match meaning, gentle with
  | .nothing, _ => exact .pure _
  | .command (.builtin .echo), _ => exact fun _ => rfl
  | .command (.builtin .setVariable), _ =>
    intro s
    exact congrArg (fun shell => EStateM.Result.ok () (Host.mk shell s.world)) (aloof.runSet (fun _ => rfl) s.shell)
  | .alias value, _ => exact absurd rfl (other value)
  | .variable, _ =>
    intro s
    exact congrArg (fun shell => EStateM.Result.ok () (Host.mk shell s.world)) (aloof.useVariable _ _ _ s.shell)
  | .unknown, _ => exact commutes_runUnknown (unseen_shade waiting expansions)

end

section

variable {s m n : Session} {line rest : Text}

theorem meaning_of_oversized (oversized : Oversized s line) :
    Host.meaning (s.shell.accept line .player) = .command .forward ∨ Host.meaning (s.shell.accept line .player) = .unknown := by
  cases oversized.forwarded with
  | command known => exact .inl known
  | unknown known => exact .inr known

theorem not_oversized_of_value {value : Text} (calls : s.shell.value? line = some value) : ¬ Oversized s line := by
  intro oversized
  have means := (Shell.value?_eq_some.1 calls).2
  rcases meaning_of_oversized oversized with known | known
  · cases means.symm.trans known
  · cases means.symm.trans known

/-- A mild line is run in two sessions alike that differ only in what waits, and leaves that as it is. -/
theorem runLine_apart (gentle : mild (Host.meaning (s.shell.accept line .player)) = true)
    (other : ∀ value, Host.meaning (s.shell.accept line .player) ≠ .alias value) : ∃ outcome, ∀ u, apart u = apart s →
      Host.runLine line .player u = Act.moved (shade u.shell.pending u.shell.expansions) outcome := by
  let base : Session := shade [] 0 ⟨s.shell.accept line .player, s.world⟩
  refine ⟨Host.runMeaning (Host.runLineWithin line.length) (Host.meaning base.shell) base, fun u same => ?_⟩
  have here : shade [] 0 ⟨u.shell.accept line .player, u.world⟩ = base := by
    have accepted := congrArg (fun v : Session => (⟨v.shell.accept line .player, v.world⟩ : Session)) same
    exact accepted
  have means : Host.meaning (u.shell.accept line .player) = Host.meaning base.shell :=
    congrArg (fun v : Session => Host.meaning v.shell) here
  have shaded : (⟨u.shell.accept line .player, u.world⟩ : Session) = shade u.shell.pending u.shell.expansions base := by
    rw [← here]
    rfl
  rw [Host.runLine_eq, means, shaded]
  exact commutes_runMeaning gentle other _ _ base

/-- A mild line of a name that something has runs well. -/
theorem runs_of_named (gentle : mild (Host.meaning (s.shell.accept line .player)) = true)
    (named : Host.meaning (s.shell.accept line .player) ≠ .unknown) : ∃ t, Host.runLine line .player s = .ok () t := by
  rw [Host.runLine_eq]
  generalize Host.meaning (s.shell.accept line .player) = meaning at gentle named ⊢
  match meaning, gentle with
  | .nothing, _ | .command (.builtin .echo), _ | .command (.builtin .setVariable), _ | .alias _, _ | .variable, _ =>
    exact ⟨_, rfl⟩
  | .unknown, _ => exact absurd rfl named

/-- A mild line fails only if it is for the server and as long as the queue. -/
theorem runLine_ok_iff (forgiving : s.world.outgoing.forgiving = true) (capacity : s.world.outgoing.capacity = outgoingLimit)
    (gentle : mild (Host.meaning (s.shell.accept line .player)) = true) :
    (∃ t, Host.runLine line .player s = .ok () t) ↔ ¬ Oversized s line := by
  by_cases named : Host.meaning (s.shell.accept line .player) = .unknown
  · let m : Session := { s with shell := s.shell.accept line .player }
    by_cases sent : (s.world.connected && !s.world.playing && !(((Line.ofText line).word 0).head? == some '+' ||
        ((Line.ofText line).word 0).head? == some '-')) = true
    · simp only [Bool.and_eq_true, Bool.not_eq_true', Bool.or_eq_false_iff, beq_eq_false_iff_ne] at sent
      obtain ⟨⟨live, quiet⟩, noPlus, noMinus⟩ := sent
      have forwarded : Forwarded s line := .unknown named noPlus noMinus
      rw [(forwarding_ok_iff live quiet forgiving capacity forwarded).1]
      constructor
      · intro short oversized
        exact absurd (short oversized.long.1) (Nat.not_lt.2 oversized.long.2)
      · intro fine many
        by_contra long
        exact fine ⟨live, quiet, forwarded, many, Nat.not_lt.1 long⟩
    · constructor
      · intro _ oversized
        cases oversized.forwarded with
        | command known => cases named.symm.trans known
        | unknown _ noPlus noMinus => exact sent (by simp [oversized.live, oversized.quiet, noPlus, noMinus])
      · intro _
        rw [Host.runLine_eq, named]
        have printed : (Host.runUnknown : Act Session Unit) m =
            Client.print ("Unknown command \"" ++ (Line.ofText line).word 0 ++ "\"\n") m := congrFun (if_neg sent) m
        exact ⟨_, printed⟩
  · refine ⟨fun _ oversized => ?_, fun _ => runs_of_named gentle named⟩
    rcases meaning_of_oversized oversized with known | known
    · rw [known] at gentle
      cases gentle
    · exact named known

theorem lasting_runLine (gentle : mild (Host.meaning (s.shell.accept line .player)) = true)
    (other : ∀ value, Host.meaning (s.shell.accept line .player) ≠ .alias value) :
    lasting (Act.final (Host.runLine line .player s)) = lasting s := by
  rw [Host.runLine_eq]
  exact lasting_runMeaning gentle other _

theorem passable_begins (begins : Begins s.shell.pending line rest) : passable s = ((Text.trim line).isEmpty ||
    mild (Host.meaning ((s.queue rest).shell.accept line .player)) &&
      ((s.queue rest).shell.value? line).all fun value => (s.queue rest).shell.hasRoom (ended value)) := by
  unfold passable
  rw [Shell.nextLine_begins begins]
  rfl

theorem callsAlias_begins (begins : Begins s.shell.pending line rest) : callsAlias s = (s.shell.value? line).isSome := by
  unfold callsAlias
  rw [Shell.nextLine_begins begins]
  rfl

end

/-- What one line comes to. A line that calls no alias comes to the same in a session that is alike but for what waits
behind the line. -/
inductive Pass (s : Session) : EStateM.Result Fault Session Bool → Prop where
  | kept {m : Session} {line rest : Text} (begins : Begins s.shell.pending line rest) (plain : s.shell.value? line = none)
      (fits : (Text.trim line).isEmpty = false → ¬ Oversized (s.queue rest) line)
      (lasts : lasting m = lasting s) (left : m.shell.pending = rest) (counted : m.shell.expansions = s.shell.expansions)
      (twin : ∀ n later, apart n = apart s → Begins n.shell.pending line later →
        ∃ u, round n = .ok true u ∧ u.shell.pending = later ∧ apart u = apart m) : Pass s (.ok true m)
  | called {m : Session} {line rest value : Text} (begins : Begins s.shell.pending line rest)
      (calls : s.shell.value? line = some value) (early : s.shell.expansions + 1 < Host.expansionLimit)
      (room : (s.queue rest).shell.hasRoom (ended value) = true)
      (lasts : lasting m = lasting s) (left : m.shell.pending = ended value ++ rest)
      (counted : m.shell.expansions = s.shell.expansions + 1) (same : apart m = apart s) : Pass s (.ok true m)
  | failed {m : Session} {line rest : Text} {fault : Fault} (begins : Begins s.shell.pending line rest)
      (wordy : (Text.trim line).isEmpty = false) (plain : s.shell.value? line = none)
      (long : Oversized (s.queue rest) line)
      (twin : ∀ n later, apart n = apart s → Begins n.shell.pending line later →
        ∃ u, round n = .error fault u ∧ apart u = apart m) : Pass s (.error fault m)

namespace InPlace

variable {s m : Session} {line rest : Text}

theorem kept (fits : InPlace s) (begins : Begins s.shell.pending line rest) (wordy : (Text.trim line).isEmpty = false)
    (plain : s.shell.value? line = none) : Pass s (round s) := by
  have gentle : Client.mild (Host.meaning ((s.queue rest).shell.accept line .player)) = true :=
    fits.mild line _ (.here begins wordy)
  have other (value : Text) : Host.meaning ((s.queue rest).shell.accept line .player) ≠ .alias value := by
    intro means
    have calls : s.shell.value? line = some value := Shell.value?_eq_some.2 ⟨wordy, means⟩
    cases plain.symm.trans calls
  have lasts := lasting_runLine gentle other
  have fine := runLine_ok_iff (s := s.queue rest) fits.forgiving fits.capacity gentle
  obtain ⟨outcome, acts⟩ := runLine_apart gentle other
  have here : Host.runLine line .player (s.queue rest) = _ := acts (s.queue rest) rfl
  rw [here] at lasts fine
  rw [Host.round_wordy begins wordy, here]
  cases outcome with
  | ok done t =>
    have running : t.shell.paused = false := (congrArg Lasting.paused lasts).trans fits.running
    simp only [Act.moved, shade, running, Bool.false_eq_true, if_false]
    refine .kept begins plain (fun _ => fine.1 ⟨_, rfl⟩) ?_ rfl rfl fun n later same there => ?_
    · rw [← running]
      exact lasts
    have passed := Host.round_wordy there wordy
    rw [acts (n.queue later) same] at passed
    simp only [Act.moved, shade, running, Bool.false_eq_true, if_false] at passed
    exact ⟨_, passed, rfl, rfl⟩
  | error fault t =>
    have long : Oversized (s.queue rest) line := by
      by_contra short
      obtain ⟨_, ran⟩ := fine.2 short
      cases ran
    refine .failed begins wordy plain long fun n later same there => ?_
    have passed := Host.round_wordy there wordy
    rw [acts (n.queue later) same] at passed
    exact ⟨_, passed, rfl⟩

theorem pass (fits : InPlace s) (some : s.shell.pending ≠ []) : Pass s (round s) := by
  obtain ⟨line, rest, begins⟩ := Shell.exists_begins some
  cases calls : s.shell.value? line with
  | some value =>
    obtain ⟨wordy, means⟩ := Shell.value?_eq_some.1 calls
    have early : s.shell.expansions + 1 < Host.expansionLimit := by
      have few := fits.few [] s .none
      rw [List.nil_append, List.countP_singleton, callsAlias_begins begins, calls] at few
      exact few
    have room := fits.roomy line _ value (.here begins wordy) calls
    let m : Session := ⟨{ s.shell.accept line .player with
      expansions := s.shell.expansions + 1, pending := ended value ++ rest }, s.world⟩
    have ran : Host.runLine line .player (s.queue rest) = .ok () m := by
      rw [Host.runLine_eq, show Host.meaning ((s.queue rest).shell.accept line .player) = .alias value from means]
      exact congrArg (fun shell => EStateM.Result.ok () (Host.mk shell s.world))
        (Shell.expand_of_room (s := (s.queue rest).shell.accept line .player) early room)
    have passed := Host.round_wordy begins wordy
    rw [ran] at passed
    have running : m.shell.paused = false := fits.running
    simp only [running, Bool.false_eq_true, if_false] at passed
    rw [passed]
    exact .called begins calls early room rfl rfl rfl rfl
  | none =>
    cases blank : (Text.trim line).isEmpty with
    | false => exact fits.kept begins blank calls
    | true =>
      rw [Host.round_blank begins blank]
      refine .kept begins calls (fun wordy => nomatch blank.symm.trans wordy) rfl rfl rfl fun n later same there => ?_
      exact ⟨n.queue later, Host.round_blank there blank, rfl, same⟩

theorem next (fits : InPlace s) (pass : Pass s (.ok true m)) (ran : round s = .ok true m) : InPlace m := by
  have mild (line : Text) (u : Session) (comes : Comes m line u) := fits.mild line u (.later ran comes)
  have roomy (line : Text) (u : Session) (value : Text) (comes : Comes m line u) := fits.roomy line u value (.later ran comes)
  have few (states : List Session) (t : Session) (series : Series m states t) := fits.few _ t (.line ran series)
  simp only [List.cons_append, List.countP_cons] at few
  cases pass with
  | kept begins plain _ lasts _ counted _ =>
    rw [callsAlias_begins begins, plain] at few
    exact {
      running := (congrArg Lasting.paused lasts).trans fits.running
      forgiving := (congrArg Lasting.forgiving lasts).trans fits.forgiving
      capacity := (congrArg Lasting.capacity lasts).trans fits.capacity
      mild, roomy
      few := fun states t series => counted ▸ few states t series }
  | called begins calls _ _ lasts _ counted _ =>
    rw [callsAlias_begins begins, calls] at few
    exact {
      running := (congrArg Lasting.paused lasts).trans fits.running
      forgiving := (congrArg Lasting.forgiving lasts).trans fits.forgiving
      capacity := (congrArg Lasting.capacity lasts).trans fits.capacity
      mild, roomy
      few := fun states t series => by
        have less := few states t series
        simp only [Option.isSome_some, if_true] at less
        omega }

end InPlace

/-- The lines that come are the first lines of the states of a series. -/
theorem Comes.exists_series {s u : Session} {line : Text} (comes : Comes s line u) : ∃ states t rest, Series s states t ∧
    Begins t.shell.pending line rest ∧ (Text.trim line).isEmpty = false ∧ u = t.queue rest := by
  induction comes with
  | here begins wordy => exact ⟨[], _, _, .none, begins, wordy, rfl⟩
  | later ran _ ih =>
    obtain ⟨states, t, rest, series, first⟩ := ih
    exact ⟨_, t, rest, .line ran series, first⟩

/-- One series that comes to an end shows what the lines of the call are. -/
theorem InPlace.of_series {s t : Session} {states : List Session} (series : Series s states t)
    (last : ∀ m, round t ≠ .ok true m) (running : s.shell.paused = false)
    (queue : s.world.outgoing.forgiving = true ∧ s.world.outgoing.capacity = outgoingLimit)
    (passes : (states ++ [t]).all passable = true)
    (few : s.shell.expansions + (states ++ [t]).countP callsAlias < Host.expansionLimit) : InPlace s := by
  have comes {line : Text} {u : Session} (here : Comes s line u) :
      Client.mild (Host.meaning (u.shell.accept line .player)) = true ∧
      (u.shell.value? line).all (fun value => u.shell.hasRoom (ended value)) = true := by
    obtain ⟨others, v, rest, other, begins, wordy, rfl⟩ := here.exists_series
    have member : v ∈ states ++ [t] :=
      (series.beginning last other).subset (List.mem_append_right _ (List.mem_singleton_self v))
    have passed := List.all_eq_true.1 passes v member
    rwa [passable_begins begins, wordy, Bool.false_or, Bool.and_eq_true] at passed
  refine ⟨running, queue.1, queue.2, fun line u here => (comes here).1, ?_, ?_⟩
  · intro others v other
    have fewer := (series.beginning last other).sublist.countP_le (p := callsAlias)
    omega
  · intro line u value here calls
    have room := (comes here).2
    rwa [calls] at room

/-- A call, line by line up to its end. -/
inductive Unfolds : Session → EStateM.Result Fault Session Unit → Prop where
  | usedUp {s : Session} (none : s.shell.pending = []) : Unfolds s (.ok () s)
  | onward {s m : Session} {outcome : EStateM.Result Fault Session Unit} (pass : Pass s (.ok true m))
      (ran : round s = .ok true m) (more : Unfolds m outcome) : Unfolds s outcome
  | failed {s m : Session} {fault : Fault} (pass : Pass s (.error fault m)) (ran : round s = .error fault m) :
    Unfolds s (.error fault m)

section

variable {s m n : Session} {outcome : EStateM.Result Fault Session Unit}

theorem Pass.room_lt (pass : Pass s (.ok true m)) : m.shell.room < s.shell.room := by
  cases pass with
  | kept begins _ _ _ left counted _ =>
    have less := begins.length_lt
    unfold Shell.room
    rw [left, counted]
    omega
  | @called _ line rest value begins _ early room _ left counted _ =>
    have short := Shell.length_of_hasRoom room
    change (ended value ++ rest).length < _ at short
    unfold Shell.room
    rw [left, counted]
    simp only [Shell.pendingLimit, Host.expansionLimit] at short early ⊢
    omega

theorem InPlace.unfolds (fits : InPlace s) :
    ∃ outcome, Unfolds s outcome ∧ ∀ budget, s.shell.room < budget → Host.runPending budget s = outcome := by
  induction size : s.shell.room using Nat.strong_induction_on generalizing s with
  | _ most ih =>
    by_cases none : s.shell.pending = []
    · exact ⟨_, .usedUp none, fun budget _ => Host.runPending_usedUp none budget⟩
    have pass := fits.pass none
    generalize ran : round s = passed at pass
    have more (budget : Nat) (enough : most < budget) : ∃ fewer, budget = fewer + 1 :=
      Nat.exists_eq_add_one_of_ne_zero (Nat.ne_zero_of_lt enough)
    cases passed with
    | error fault m =>
      refine ⟨_, .failed pass ran, fun budget enough => ?_⟩
      obtain ⟨fewer, rfl⟩ := more budget enough
      rw [Host.runPending_round, ran]
    | ok onward m =>
      cases onward with
      | false => cases pass
      | true =>
        have less := pass.room_lt
        obtain ⟨outcome, unfolds, rest⟩ := ih _ (size ▸ less) (fits.next pass ran) rfl
        refine ⟨outcome, .onward pass ran unfolds, fun budget enough => ?_⟩
        obtain ⟨fewer, rfl⟩ := more budget enough
        rw [Host.runPending_round, ran]
        exact rest fewer (by omega)

theorem Pass.value? (pass : Pass s (.ok true m)) : m.shell.value? = s.shell.value? := by
  cases pass with
  | kept _ _ _ lasts _ _ _ | called _ _ _ _ lasts _ _ _ =>
    exact Shell.value?_congr (congrArg Lasting.commands lasts) (congrArg Lasting.aliases lasts)

namespace Unfolds

/-- A call that comes to a good end has used its text up, and there was an end to the aliases in it. -/
theorem exists_expanded {t : Session} (unfolds : Unfolds s outcome) (good : outcome = .ok () t) :
    t.shell.pending = [] ∧ ∃ expanded, Expanded s.shell.value? s.shell.pending expanded := by
  induction unfolds with
  | usedUp none =>
    cases good
    refine ⟨none, [], ?_⟩
    rw [none]
    exact .empty
  | onward pass _ _ ih =>
    obtain ⟨used, expanded, expansion⟩ := ih good
    refine ⟨used, ?_⟩
    rw [pass.value?] at expansion
    cases pass with
    | kept begins plain _ _ left _ _ =>
      rw [left] at expansion
      obtain ⟨piece, split⟩ := begins.exists_piece
      rw [split] at begins ⊢
      exact ⟨_, .kept begins plain expansion⟩
    | called begins calls _ _ _ left _ _ =>
      rw [left] at expansion
      obtain ⟨inner, later, _, lines, more⟩ := expansion.split (Shell.complete_ended _)
      exact ⟨_, .called begins calls lines more⟩
  | failed => cases good

/-- The text with its aliases in place is used up in the same way, line by line. -/
theorem agree (unfolds : Unfolds s outcome) (same : apart n = apart s)
    (expansion : Expanded s.shell.value? s.shell.pending n.shell.pending) {budget : Nat}
    (enough : n.shell.pending.length < budget) : Agree outcome (Host.runPending budget n) := by
  induction unfolds generalizing n budget with
  | usedUp none =>
    rw [none] at expansion
    have too := expansion.eq_nil
    rw [Host.runPending_usedUp too]
    exact .ok same none too
  | onward pass _ _ ih =>
    have values := pass.value?
    cases pass with
    | kept begins plain _ _ behind _ twin =>
      obtain ⟨later, there, more⟩ := expansion.begins_kept begins plain
      obtain ⟨u, ran, left, alike⟩ := twin n later same there
      obtain ⟨fewer, rfl⟩ := Nat.exists_eq_add_one_of_ne_zero (Nat.ne_zero_of_lt enough)
      have less := there.length_lt
      rw [Host.runPending_round, ran]
      refine ih alike ?_ (by rw [left]; omega)
      rw [values, left, behind]
      exact more
    | called begins calls _ _ _ left _ alike =>
      refine ih (same.trans alike.symm) ?_ enough
      rw [values, left]
      rcases expansion.first begins with ⟨plain, _⟩ | ⟨value, inner, later, again, own, lines, more⟩
      · cases calls.symm.trans plain
      · cases calls.symm.trans again
        rw [own]
        exact lines.append (Shell.complete_ended _) more
  | failed pass _ =>
    cases pass with
    | failed begins _ plain _ twin =>
      obtain ⟨later, there, _⟩ := expansion.begins_kept begins plain
      obtain ⟨u, ran, alike⟩ := twin n later same there
      obtain ⟨fewer, rfl⟩ := Nat.exists_eq_add_one_of_ne_zero (Nat.ne_zero_of_lt enough)
      rw [Host.runPending_round, ran]
      exact .error alike

theorem ok_iff (unfolds : Unfolds s outcome) :
    (∃ t, outcome = .ok () t) ↔ ∀ line u, Comes s line u → ¬ Oversized u line := by
  induction unfolds with
  | @usedUp s none =>
    refine ⟨fun _ line u comes => ?_, fun _ => ⟨s, rfl⟩⟩
    cases comes with
    | here begins _ => exact absurd none begins.1
    | later ran _ =>
      rw [Host.round_usedUp none] at ran
      cases ran
  | @onward s m outcome pass ran _ ih =>
    rw [ih]
    constructor
    · intro fine line u comes
      cases comes with
      | here begins wordy =>
        cases pass with
        | kept again _ fits _ _ _ _ =>
          obtain ⟨rfl, rfl⟩ := begins.unique again
          exact fits wordy
        | called again calls _ _ _ _ _ _ =>
          obtain ⟨rfl, rfl⟩ := begins.unique again
          exact not_oversized_of_value (s := s.queue _) calls
      | later again more =>
        cases ran.symm.trans again
        exact fine line u more
    · exact fun fine line u comes => fine line u (.later ran comes)
  | failed pass ran =>
    cases pass with
    | failed begins wordy _ long _ =>
      refine ⟨fun good => ?_, fun fine => absurd long (fine _ _ (.here begins wordy))⟩
      obtain ⟨t, good⟩ := good
      cases good

end Unfolds

end

/-- A call runs its text as it runs the one text that has the values of the aliases in place. Both are used up if no
line is too long for the server; else both calls fail at that line and leave what is behind it. -/
theorem aliases_in_place_iff {s : Session} (short : Text.size s.shell.pending < Shell.pendingLimit)
    (fits : InPlace s.begun) :
    ((∃ t, Host.tick s = .ok () t) ↔ ∀ line u, Comes s.begun line u → ¬ Oversized u line) ∧
    (∀ t, Host.tick s = .ok () t → t.shell.pending = [] ∧ ∃ expanded, Expanded s.shell.value? s.shell.pending expanded) ∧
    ∀ expanded, Expanded s.shell.value? s.shell.pending expanded →
      (∀ other, Expanded s.shell.value? s.shell.pending other → other = expanded) ∧
      (Text.size expanded < Shell.pendingLimit → Agree (Host.tick s) (Host.tick (s.queue expanded))) := by
  have most : Shell.pendingLimit * Host.expansionLimit < Host.lineBudget := by decide
  have length := Text.length_le_size s.shell.pending
  obtain ⟨outcome, unfolds, ran⟩ := fits.unfolds
  have ran : Host.tick s = outcome := by
    refine ran Host.lineBudget ?_
    have room : s.begun.shell.room = s.shell.pending.length + Shell.pendingLimit * (Host.expansionLimit - 1) := rfl
    simp only [Shell.pendingLimit, Host.expansionLimit] at short most room
    omega
  rw [ran]
  refine ⟨unfolds.ok_iff, fun t good => unfolds.exists_expanded good, fun expanded expansion => ?_⟩
  refine ⟨fun other again => expansion.unique again, fun fitting => ?_⟩
  have fewer := Text.length_le_size expanded
  refine unfolds.agree (n := (s.queue expanded).begun) rfl expansion ?_
  change expanded.length < Host.lineBudget
  simp only [Shell.pendingLimit, Host.expansionLimit] at fitting most
  omega

/-- A line that names nothing, with a tail as long as the queue. -/
def longUnknown : Text := "zzz".toList ++ ' ' :: List.replicate outgoingLimit 'x'

/-- A session with a connection, in which such a line waits and then a call of an alias. -/
def stalled : Session :=
  { linkedSession with shell := { linkedSession.shell with
    aliases := [("foo", "echo a\n")], pending := longUnknown ++ '\n' :: "foo\n" } }

theorem begins_stalled : Begins stalled.shell.pending longUnknown "foo\n" :=
  Shell.begins_ended (by decide +kernel) (by simp [Shell.endsLine]) _

/-- A line that begins with a plain name that nothing has names nothing. -/
theorem unknown_of_free {s : Session} {name : Text} (plain : Token.PlainName name) (free : s.shell.Free name) (rest : Text) :
    Host.meaning (s.shell.accept (name ++ ' ' :: rest) .player) = .unknown ∧
      (Line.ofText (name ++ ' ' :: rest)).word 0 = name := by
  obtain ⟨later, words⟩ := Line.words_of_plain plain rest
  obtain ⟨commands, aliases, vars⟩ := free
  constructor
  · unfold Host.meaning Shell.accept
    rw [words]
    dsimp only
    rw [show NameTable.get? s.shell.commands name = none by simpa [NameTable.has, NameTable.get?] using commands,
      show NameTable.get? s.shell.aliases name = none by simpa [NameTable.has, NameTable.get?] using aliases, vars]
    rfl
  · rw [Line.word, words]
    rfl

theorem unknown_stalled : Host.meaning ((stalled.begun.queue "foo\n").shell.accept longUnknown .player) = .unknown ∧
    (Line.ofText longUnknown).word 0 = "zzz".toList := by
  have plain : Token.PlainName "zzz".toList := by
    refine ⟨⟨'z', ['z', 'z'], rfl, by decide, by decide⟩, ?_, by decide⟩
    simp [Token.isWordChar, Token.isGap, Token.isPunctuation]
  have free : (stalled.begun.queue "foo\n").shell.Free "zzz".toList := by
    unfold Shell.Free
    decide +kernel
  exact unknown_of_free plain free _

theorem oversized_stalled : Oversized (stalled.begun.queue "foo\n") longUnknown := by
  obtain ⟨means, named⟩ := unknown_stalled
  refine ⟨rfl, rfl, .unknown means ?_ ?_, by decide +kernel⟩
  · rw [named]
    decide
  · rw [named]
    decide

theorem wordy_stalled : (Text.trim longUnknown).isEmpty = false :=
  Text.trim_visible (c := 'z') (List.mem_append_left _ (by decide)) (by decide)

theorem capacity_stalled : stalled.world.outgoing.capacity = outgoingLimit := by decide +kernel

theorem plain_stalled (s : Shell ClientCommand) (commands : s.commands = stalled.shell.commands)
    (aliases : s.aliases = stalled.shell.aliases) : s.value? longUnknown = none := by
  have same : s.value? = (stalled.begun.queue "foo\n").shell.value? := Shell.value?_congr commands aliases
  rw [same]
  cases calls : (stalled.begun.queue "foo\n").shell.value? longUnknown with
  | none => rfl
  | some value => exact nomatch unknown_stalled.1.symm.trans (Shell.value?_eq_some.1 calls).2

theorem last_stalled (m : Session) : round stalled.begun ≠ .ok true m := by
  have gentle : mild (Host.meaning ((stalled.begun.queue "foo\n").shell.accept longUnknown .player)) = true := by
    rw [unknown_stalled.1]
    rfl
  intro ran
  rw [Host.round_wordy (t := stalled.begun) begins_stalled wordy_stalled] at ran
  cases outcome : Host.runLine longUnknown .player (stalled.begun.queue "foo\n") with
  | ok _ t =>
    have fine := runLine_ok_iff (s := stalled.begun.queue "foo\n") rfl capacity_stalled gentle
    exact fine.1 ⟨t, outcome⟩ oversized_stalled
  | error fault t =>
    rw [outcome] at ran
    cases ran

theorem inPlace_stalled : InPlace stalled.begun := by
  have begins : Begins stalled.begun.shell.pending longUnknown "foo\n" := begins_stalled
  have plain : (stalled.begun.queue "foo\n").shell.value? longUnknown = none := plain_stalled _ rfl rfl
  refine .of_series .none last_stalled (by decide +kernel) ⟨rfl, capacity_stalled⟩ ?_ ?_
  · have passes : passable stalled.begun = true := by
      rw [passable_begins begins, unknown_stalled.1, plain]
      exact Bool.or_true _
    rw [List.nil_append, List.all_cons, passes]
    rfl
  · rw [List.nil_append, List.countP_singleton, callsAlias_begins begins, plain_stalled stalled.begun.shell rfl rfl]
    decide

theorem expanded_stalled :
    Expanded stalled.shell.value? stalled.shell.pending ((longUnknown ++ ['\n']) ++ "echo a\n".toList) := by
  have printed : Begins "echo a\n" "echo a" [] := ⟨by decide, by decide⟩
  have named : Begins "foo\n" "foo" [] := ⟨by decide, by decide⟩
  have value : Expanded stalled.shell.value? (ended "echo a\n") "echo a\n" := .alone printed (by decide +kernel)
  have calls : stalled.shell.value? "foo" = some "echo a\n" := by decide +kernel
  have piece : stalled.shell.pending = (longUnknown ++ ['\n']) ++ "foo\n".toList := by
    rw [List.append_assoc]
    rfl
  have begins := begins_stalled
  rw [piece] at begins ⊢
  exact .kept begins (plain_stalled _ rfl rfl) (.called named calls value .empty)

/-- A session in which a call of an alias waits that calls another. -/
def nested : Session :=
  { shell := { (Shell.empty Console.captured : Shell ClientCommand) with
      commands := commandTable
      aliases := [("outer", "inner;echo b\n"), ("inner", "echo a\n")]
      pending := "outer;echo c" }
    world := Client.start (SearchPath.ofBase "/") (Disk.empty []) }

theorem inPlace_nested : InPlace nested.begun := by
  have series := series_follow 6 nested.begun
  have none : (follow 6 nested.begun).2.shell.pending = [] := by decide +kernel
  have last (m : Session) : round (follow 6 nested.begun).2 ≠ .ok true m := by simp [Host.round_usedUp none]
  refine .of_series series last rfl (by decide +kernel) (by decide +kernel) (by decide +kernel)

theorem expanded_nested : Expanded nested.shell.value? nested.shell.pending "echo a\necho b\necho c" := by
  have outer : Begins "outer;echo c" "outer" "echo c" := ⟨by decide, by decide⟩
  have inner : Begins (ended "inner;echo b\n") "inner" "echo b\n" := ⟨by decide, by decide⟩
  have first : Begins (ended "echo a\n") "echo a" [] := ⟨by decide, by decide⟩
  have second : Begins "echo b\n" "echo b" [] := ⟨by decide, by decide⟩
  have third : Begins "echo c" "echo c" [] := ⟨by decide, by decide⟩
  have values : nested.shell.value? "outer" = some "inner;echo b\n" ∧ nested.shell.value? "inner" = some "echo a\n" := by
    decide +kernel
  have printed : nested.shell.value? "echo a" = none ∧ nested.shell.value? "echo b" = none ∧
      nested.shell.value? "echo c" = none := by decide +kernel
  have lines := Expanded.called inner values.2 (.alone first printed.1) (.alone second printed.2.1)
  exact .called outer values.1 lines (.alone third printed.2.2)

theorem nested_in_place_long_line_stops :
    (Agree (Host.tick nested) (Host.tick (nested.queue "echo a\necho b\necho c")) ∧
      ∃ t, Host.tick nested = .ok () t ∧ t.shell.pending = []) ∧
    (∃ fault t, Host.tick stalled = .error fault t) ∧
    Agree (Host.tick stalled) (Host.tick (stalled.queue ((longUnknown ++ ['\n']) ++ "echo a\n".toList))) := by
  obtain ⟨_, usedUp, same⟩ := aliases_in_place_iff (s := nested) (by decide +kernel) inPlace_nested
  obtain ⟨ok_iff, _, agree⟩ := aliases_in_place_iff (s := stalled) (by decide +kernel) inPlace_stalled
  refine ⟨⟨(same _ expanded_nested).2 (by decide), ?_⟩, ?_, (agree _ expanded_stalled).2 (by decide +kernel)⟩
  · have fine : Act.ends (fun _ _ => true) (Host.tick nested) = true := by decide +kernel
    obtain ⟨_, t, ran, _⟩ := Act.ok_of_ends fine
    exact ⟨t, ran, (usedUp t ran).1⟩
  · cases ran : Host.tick stalled with
    | ok _ t => exact absurd oversized_stalled (ok_iff.1 ⟨t, ran⟩ _ _ (.here begins_stalled wordy_stalled))
    | error fault t => exact ⟨fault, t, rfl⟩

end GameHost.Client
