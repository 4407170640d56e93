import GameHost.Proofs.Shell.Script
import GameHost.Relay

/-!
Waiting only cuts a text into batches. Each call runs lines off the front of the text, up to the first that leaves the
host paused or fails, and successive calls run every line that is not blank exactly once and in order, whatever the
lines do, as long as they leave alone what waits behind them.
-/
namespace GameHost

namespace Shell

/-- The first line of a text, and the rest of the text after it. -/
def Begins (text line rest : Text) : Prop := text ≠ [] ∧ splitLine false text = (line, rest)

def linesWithin : Nat → Text → List Text
  | 0, _ => []
  | fuel + 1, text =>
    if text.isEmpty then []
    else
      let (line, rest) := splitLine false text
      line :: linesWithin fuel rest

/-- The lines that a text is run as. Each takes a character at least. -/
def lines (text : Text) : List Text := linesWithin text.length text

/-- Only lines with something visible are run. -/
def wordy (lines : List Text) : List Text := lines.filter fun line => !(Text.trim line).isEmpty

variable {text line rest : Text}

theorem splitLine_suffix (quoted : Bool) (text : Text) : (splitLine quoted text).2 <:+ text := by
  induction text generalizing quoted with
  | nil => exact List.suffix_refl []
  | cons c text ih =>
    unfold splitLine
    split
    · exact List.suffix_cons c text
    · exact (ih _).trans (List.suffix_cons c text)

theorem Begins.suffix (begins : Begins text line rest) : rest <:+ text := by
  have suffix := splitLine_suffix false text
  rwa [begins.2] at suffix

theorem Begins.length_lt (begins : Begins text line rest) : rest.length < text.length := by
  have shorter := length_splitLine false text
  have some : 0 < text.length := List.length_pos_iff.2 begins.1
  rw [begins.2] at shorter
  dsimp only at shorter
  omega

theorem linesWithin_eq {fuel other : Nat} (enough : text.length ≤ fuel) (too : text.length ≤ other) :
    linesWithin fuel text = linesWithin other text := by
  induction fuel generalizing text other with
  | zero =>
    cases List.length_eq_zero_iff.1 (Nat.le_zero.1 enough)
    cases other <;> rfl
  | succ fuel ih =>
    cases other with
    | zero =>
      cases List.length_eq_zero_iff.1 (Nat.le_zero.1 too)
      rfl
    | succ other =>
      have shorter := length_splitLine false text
      simp only [linesWithin]
      split
      · rfl
      · exact congrArg _ (ih (by omega) (by omega))

theorem Begins.lines_eq (begins : Begins text line rest) : lines text = line :: lines rest := by
  have less := begins.length_lt
  obtain ⟨some, split⟩ := begins
  obtain ⟨fuel, length⟩ := Nat.exists_eq_add_one_of_ne_zero (Nat.ne_zero_of_lt less)
  have more : text.isEmpty = false := by simpa using some
  rw [lines, length, linesWithin, more, split, if_neg Bool.false_ne_true]
  exact congrArg (line :: ·) (linesWithin_eq (by omega) (Nat.le_refl _))

theorem exists_begins (some : text ≠ []) : ∃ line rest, Begins text line rest := ⟨_, _, some, rfl⟩

end Shell

namespace Host
open Shell (Begins lines wordy)

variable {α ω : Type}

/-- The host at the start of a call. -/
def begun (h : Host α ω) : Host α ω := { h with shell := { h.shell with expansions := 0 } }

def goOn (h : Host α ω) : Host α ω := { h with shell := { h.shell with paused := false } }

variable [Program α ω]

/-- How one call deals with a text: the lines it runs, one after another with what follows waiting behind each, the
text that is left, and how the call comes out. -/
inductive Call : Host α ω → Text → List Text → Text → EStateM.Result Fault (Host α ω) Unit → Prop where
  | usedUp (h : Host α ω) : Call h [] [] [] (.ok () h)
  | blank {h : Host α ω} {text line after run rest outcome} (begins : Begins text line after)
      (blank : (Text.trim line).isEmpty = true) (more : Call (h.queue after) after run rest outcome) :
      Call h text run rest outcome
  | failed {h t : Host α ω} {text line rest fault} (begins : Begins text line rest)
      (wordy : (Text.trim line).isEmpty = false) (ran : runLine line .player (h.queue rest) = .error fault t) :
      Call h text [line] rest (.error fault t)
  | paused {h t : Host α ω} {text line rest} (begins : Begins text line rest)
      (wordy : (Text.trim line).isEmpty = false) (ran : runLine line .player (h.queue rest) = .ok () t)
      (set : t.shell.paused = true) : Call h text [line] rest (.ok () t.goOn)
  | going {h m : Host α ω} {text line after run rest outcome} (begins : Begins text line after)
      (wordy : (Text.trim line).isEmpty = false) (ran : runLine line .player (h.queue after) = .ok () m)
      (clear : m.shell.paused = false) (more : Call m after run rest outcome) :
      Call h text (line :: run) rest outcome

/-- Successive calls, each from where the one before it left the host, well or not. -/
inductive Calls : Host α ω → Text → List (List Text) → Text → Prop where
  | none (h : Host α ω) (text : Text) : Calls h text [] text
  | call {h : Host α ω} {text run between batches rest} (first : Call h.begun text run between (tick h))
      (more : Calls (Act.final (tick h)) between batches rest) : Calls h text (run :: batches) rest

/-- The host after so many calls. -/
def ticked : Nat → Host α ω → Host α ω
  | 0, h => h
  | calls + 1, h => ticked calls (Act.final (tick h))

/-- The host before some pass of some of its successive calls. -/
inductive Passes (h : Host α ω) : Host α ω → Prop where
  | first : Passes h h.begun
  | next {t m : Host α ω} (before : Passes h t) (ran : round t = .ok true m) : Passes h m
  | call {t : Host α ω} (before : Passes h t) (last : ∀ m, round t ≠ .ok true m) :
      Passes h (begun (Act.final (round t)))

/-- No line that a call comes to changes the text that waits behind it. -/
def Undisturbed (h : Host α ω) : Prop :=
  ∀ t, Passes h t → ∀ line rest, Begins t.shell.pending line rest → (Text.trim line).isEmpty = false →
    (Act.final (runLine line .player (t.queue rest))).shell.pending = rest

variable {h t : Host α ω} {text line rest : Text} {run : List Text} {outcome : EStateM.Result Fault (Host α ω) Unit}

namespace Call

theorem suffix (call : Call h text run rest outcome) : rest <:+ text := by
  induction call with
  | usedUp h => exact List.suffix_refl []
  | blank begins _ _ ih => exact ih.trans begins.suffix
  | failed begins _ _ => exact begins.suffix
  | paused begins _ _ _ => exact begins.suffix
  | going begins _ _ _ _ ih => exact ih.trans begins.suffix

theorem wordy_eq (call : Call h text run rest outcome) : wordy (lines text) = run ++ wordy (lines rest) := by
  have first {line} (some : (Text.trim line).isEmpty = false) (others : List Text) :
      wordy (line :: others) = line :: wordy others := List.filter_cons_of_pos (by simp [some])
  induction call with
  | usedUp h => rfl
  | blank begins blank _ ih =>
    rw [begins.lines_eq, ← ih]
    exact List.filter_cons_of_neg (by simp [blank])
  | failed begins some _ => rw [begins.lines_eq, first some]; rfl
  | paused begins some _ _ => rw [begins.lines_eq, first some]; rfl
  | going begins some _ _ _ ih => rw [begins.lines_eq, first some, ih]; rfl

/-- A call leaves fewer lines than it finds, if it finds any. -/
theorem fewer (call : Call h text run rest outcome) : (lines rest).length ≤ (lines text).length - 1 := by
  induction call with
  | usedUp h => exact Nat.le_refl _
  | blank begins _ _ ih => rw [begins.lines_eq, List.length_cons]; omega
  | failed begins _ _ => rw [begins.lines_eq, List.length_cons]; omega
  | paused begins _ _ _ => rw [begins.lines_eq, List.length_cons]; omega
  | going begins _ _ _ _ ih => rw [begins.lines_eq, List.length_cons]; omega

end Call

omit [Program α ω] in
theorem askShell_begins (begins : Begins t.shell.pending line rest) :
    askShell Shell.nextLine t = .ok (some line) (t.queue rest) := by
  obtain ⟨some, split⟩ := begins
  have more : t.shell.pending.isEmpty = false := by simpa using some
  simp [askShell, Shell.nextLine, queue, split, more]

theorem round_usedUp (none : t.shell.pending = []) : round t = .ok false t := by
  have empty : askShell Shell.nextLine t = .ok Option.none t := by simp [askShell, Shell.nextLine, none]
  exact Act.bind_of_ok empty

theorem round_blank (begins : Begins t.shell.pending line rest) (blank : (Text.trim line).isEmpty = true) :
    round t = .ok true (t.queue rest) := by
  rw [round, Act.bind_of_ok (askShell_begins begins)]
  dsimp only
  rw [if_pos blank]
  rfl

theorem round_wordy (begins : Begins t.shell.pending line rest) (some : (Text.trim line).isEmpty = false) :
    round t = match runLine line .player (t.queue rest) with
      | .error fault m => .error fault m
      | .ok _ m => if m.shell.paused then .ok false m.goOn else .ok true m := by
  rw [round, Act.bind_of_ok (askShell_begins begins)]
  dsimp only
  rw [if_neg (by simp [some])]
  cases ran : runLine line .player (t.queue rest) with
  | error fault m => exact Act.bind_of_error ran
  | ok done m =>
    rw [Act.bind_of_ok ran, Act.bind_get]
    dsimp only
    split <;> rfl

/-- A run over the pending text is a call that leaves what it has not come to. -/
def Batched (h t : Host α ω) (outcome : EStateM.Result Fault (Host α ω) Unit) : Prop :=
  ∃ run, Call t t.shell.pending run (Act.final outcome).shell.pending outcome ∧ Passes h (begun (Act.final outcome))

theorem runPending_usedUp (none : t.shell.pending = []) (budget : Nat) : runPending budget t = .ok () t := by
  have same : t.queue [] = t := by rw [← none]; rfl
  rw [← same, runPending_empty]

theorem batched_usedUp (before : Passes h t) (none : t.shell.pending = []) (budget : Nat) :
    Batched h t (runPending budget t) := by
  have idle := round_usedUp none
  have later := Passes.call before (by simp [idle])
  rw [idle] at later
  rw [runPending_usedUp none]
  refine ⟨[], ?_, later⟩
  change Call t t.shell.pending [] t.shell.pending _
  rw [none]
  exact .usedUp t

theorem runPending_batched (calm : Undisturbed h) (before : Passes h t) {budget : Nat}
    (enough : t.shell.pending.length ≤ budget) : Batched h t (runPending budget t) := by
  -- a line takes a character at least off the text, and none puts text back, so the budget is never used up
  induction budget generalizing t with
  | zero => exact batched_usedUp before (List.length_eq_zero_iff.1 (Nat.le_zero.1 enough)) 0
  | succ budget ih =>
    by_cases none : t.shell.pending = []
    · exact batched_usedUp before none _
    obtain ⟨line, rest, begins⟩ := Shell.exists_begins none
    have less := begins.length_lt
    rw [runPending_succ]
    cases blank : (Text.trim line).isEmpty with
    | true =>
      have passed := round_blank begins blank
      obtain ⟨run, call, later⟩ := ih (before.next passed) (show rest.length ≤ budget by omega)
      rw [Act.bind_of_ok passed]
      exact ⟨run, .blank begins blank call, later⟩
    | false =>
      have kept := calm t before line rest begins blank
      have passed := round_wordy begins blank
      cases ran : runLine line .player (t.queue rest) with
      | error fault m =>
        rw [ran] at passed kept
        have later := Passes.call before (by simp [passed])
        rw [passed] at later
        rw [Act.bind_of_error passed]
        exact ⟨[line], kept ▸ .failed begins blank ran, later⟩
      | ok done m =>
        rw [ran] at passed kept
        dsimp only at passed
        change m.shell.pending = rest at kept
        cases set : m.shell.paused with
        | true =>
          rw [set, if_pos rfl] at passed
          have later := Passes.call before (by simp [passed])
          rw [passed] at later
          rw [Act.bind_of_ok passed]
          exact ⟨[line], kept ▸ .paused begins blank ran set, later⟩
        | false =>
          rw [set, if_neg Bool.false_ne_true] at passed
          obtain ⟨run, call, later⟩ := ih (before.next passed) (show m.shell.pending.length ≤ budget by rw [kept]; omega)
          rw [kept] at call
          rw [Act.bind_of_ok passed]
          exact ⟨line :: run, .going begins blank ran set call, later⟩

theorem tick_batched (calm : Undisturbed h) (short : h.shell.pending.length ≤ lineBudget) :
    ∃ run, Call h.begun h.shell.pending run (Act.final (tick h)).shell.pending (tick h) ∧
      Passes h (begun (Act.final (tick h))) :=
  runPending_batched calm .first short

theorem Passes.later {m : Host α ω} (begins : Passes h m.begun) (passes : Passes m t) : Passes h t := by
  induction passes with
  | first => exact begins
  | next _ ran ih => exact ih.next ran
  | call _ last ih => exact ih.call last

/-- Whatever the lines of a text are, waits, blanks and failures among them, successive calls run those that are not
blank, each once and in order, and in each call up to the first that pauses or fails. What is left is what the last
call has not come to, and as many calls as there are lines leave nothing. -/
theorem waiting_only_batches (calm : Undisturbed h) (short : h.shell.pending.length ≤ lineBudget) (calls : Nat) :
    ∃ batches, batches.length = calls ∧ Calls h h.shell.pending batches (ticked calls h).shell.pending ∧
      wordy (lines h.shell.pending) = batches.flatten ++ wordy (lines (ticked calls h).shell.pending) ∧
      (ticked calls h).shell.pending <:+ h.shell.pending ∧
      ((lines h.shell.pending).length ≤ calls → (ticked calls h).shell.pending = []) := by
  induction calls generalizing h with
  | zero =>
    refine ⟨[], rfl, .none h _, rfl, List.suffix_refl _, fun all => ?_⟩
    by_contra some
    obtain ⟨line, rest, begins⟩ := Shell.exists_begins (show h.shell.pending ≠ [] from some)
    rw [begins.lines_eq] at all
    cases all
  | succ calls ih =>
    obtain ⟨run, call, later⟩ := tick_batched calm short
    have suffix := call.suffix
    obtain ⟨batches, count, more, split, left, used⟩ := ih (h := Act.final (tick h))
      (fun t passes => calm t (later.later passes)) (suffix.length_le.trans short)
    refine ⟨run :: batches, congrArg (· + 1) count, .call call more, ?_, left.trans suffix, ?_⟩
    · rw [call.wordy_eq, split, List.flatten_cons, List.append_assoc]
      rfl
    · intro all
      have fewer := call.fewer
      exact used (by omega)

/-- A check of the lines that successive calls come to. -/
def settles : Nat → Host α ω → Bool
  | 0, _ => false
  | fuel + 1, t =>
    if t.shell.pending.isEmpty then true
    else
      let (line, rest) := Shell.splitLine false t.shell.pending
      ((Text.trim line).isEmpty || (Act.final (runLine line .player (t.queue rest))).shell.pending == rest) &&
        match round t with
        | .ok true m => settles fuel m
        | outcome => settles fuel (begun (Act.final outcome))

theorem settles_next {fuel : Nat} {m : Host α ω} (good : settles fuel t = true) (ran : round t = .ok true m) :
    ∃ fuel, settles fuel m = true := by
  cases fuel with
  | zero => cases good
  | succ fuel =>
    unfold settles at good
    split at good
    · rename_i none
      rw [round_usedUp (by simpa using none)] at ran
      cases ran
    · rw [ran] at good
      exact ⟨fuel, (Bool.and_eq_true_iff.1 good).2⟩

theorem settles_call {fuel : Nat} (good : settles fuel t = true) (last : ∀ m, round t ≠ .ok true m) :
    ∃ fuel, settles fuel (begun (Act.final (round t))) = true := by
  cases fuel with
  | zero => cases good
  | succ fuel =>
    unfold settles at good
    split at good
    · rename_i none
      rw [round_usedUp (by simpa using none)]
      refine ⟨1, ?_⟩
      unfold settles
      exact if_pos none
    · refine ⟨fuel, ?_⟩
      have rest := (Bool.and_eq_true_iff.1 good).2
      split at rest
      · rename_i m ran
        exact absurd ran (last m)
      · exact rest

theorem undisturbed_of_settles (fuel : Nat) (good : settles fuel h.begun = true) : Undisturbed h := by
  have always {t : Host α ω} (passes : Passes h t) : ∃ fuel, settles fuel t = true := by
    induction passes with
    | first => exact ⟨fuel, good⟩
    | next _ ran ih =>
      obtain ⟨fuel, good⟩ := ih
      exact settles_next good ran
    | call _ last ih =>
      obtain ⟨fuel, good⟩ := ih
      exact settles_call good last
  intro t passes line rest begins some
  obtain ⟨fuel, good⟩ := always passes
  cases fuel with
  | zero => cases good
  | succ fuel =>
    unfold settles at good
    rw [begins.2, if_neg (by simpa using begins.1)] at good
    simpa [some] using (Bool.and_eq_true_iff.1 good).1

/-- A host with a line that pauses, one that fails, a blank one and a separator between quotes. -/
def mixedHost : Host Empty Relay :=
  ⟨Shell.registerAll [("echo", .builtin .echo), ("wait", .builtin .wait), ("fail", .probe .fail)]
    { Shell.empty Console.empty with pending := "echo \"a;b\";\n wait\necho c; fail;wait;; echo d".toList }, Relay.detached⟩

/-- The first call and the third stop at a pause, which is over afterwards; the second fails, and the fourth uses all up. -/
theorem mixedHost_batches : (∃ batches, Calls mixedHost mixedHost.shell.pending batches [] ∧ batches.length = 8 ∧
      batches.flatten = ["echo \"a;b\"".toList, " wait".toList, "echo c".toList, " fail".toList, "wait".toList,
        " echo d".toList]) ∧
    (Act.final (runLine "wait".toList .player mixedHost)).shell.paused = true ∧
    ((List.range 4).map fun calls => Act.ends (fun _ _ => true) (tick (ticked calls mixedHost))) =
      [true, false, true, true] ∧
    ((List.range 5).map fun calls => (ticked calls mixedHost).shell.pending) =
      [mixedHost.shell.pending, "echo c; fail;wait;; echo d".toList, "wait;; echo d".toList, "; echo d".toList, []] ∧
    ((List.range 5).map fun calls => (ticked calls mixedHost).shell.console.terminalText) =
      [[], "a;b\n".toList, "a;b\nc\n".toList, "a;b\nc\n".toList, "a;b\nc\nd\n".toList] ∧
    ((List.range 5).map fun calls => (ticked calls mixedHost).shell.paused) = [false, false, false, false, false] := by
  refine ⟨?_, by decide +kernel⟩
  have calm : Undisturbed mixedHost := undisturbed_of_settles 12 (by decide +kernel)
  obtain ⟨batches, count, calls, split, _, used⟩ := waiting_only_batches calm (by decide +kernel) 8
  rw [used (by decide +kernel)] at calls split
  refine ⟨batches, calls, count, ?_⟩
  rw [show wordy (lines []) = [] from rfl, List.append_nil] at split
  rw [← split]
  decide +kernel

end Host

end GameHost
