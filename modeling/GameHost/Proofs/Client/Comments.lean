import GameHost.Proofs.Client.Twins

/-!
A comment behind a line of console text. It is skipped if the line is run with the same words and no line that the comment
is cut into is run at all; then whatever the lines do, the calls that follow run the same commands with the same words.
-/
namespace GameHost

theorem Text.ne_nil_of_visible {text : Text} (visible : (trim text).isEmpty = false) : text ≠ [] := by
  rintro rfl
  exact absurd visible (by decide)

namespace Host
open GameHost.Shell (Begins called calledBy splitLine)

variable {α ω : Type}

/-- What the next line that waits is run with. -/
def nextCalled (h : Host α ω) : List (List Text) := called (splitLine false h.shell.pending).1

variable [Program α ω]

/-- What so many passes at most run their lines with. -/
def dispatchedWithin : Nat → Host α ω → List (List Text)
  | 0, _ => []
  | budget + 1, h =>
    nextCalled h ++
      match round h with
      | .ok true m => dispatchedWithin budget m
      | _ => []

/-- The commands that one call runs, each with its words. -/
def dispatched (h : Host α ω) : List (List Text) := dispatchedWithin lineBudget h.begun

variable {h : Host α ω} {line rest : Text}

/-- A line that leaves alone what waits behind it is followed by that. -/
theorem pending_round (begins : Begins h.shell.pending line rest) (wordy : (Text.trim line).isEmpty = false)
    (kept : (Act.final (runLine line .player (h.queue rest))).shell.pending = rest) :
    (Act.final (round h)).shell.pending = rest := by
  rw [round_wordy begins wordy]
  cases ran : runLine line .player (h.queue rest) with
  | error fault m =>
    rw [ran] at kept
    exact kept
  | ok done m =>
    rw [ran] at kept
    dsimp only
    split <;> exact kept

/-- A line without words does nothing. -/
theorem runLine_wordless (none : (Line.ofText line).words = []) (source : Source) (h : Host α ω) :
    runLine line source h = .ok () { h with shell := h.shell.accept line source } := by
  have nothing : meaning (h.shell.accept line source) = .nothing := by
    rw [meaning, show (h.shell.accept line source).line.words = [] from none]
  rw [runLine_eq, nothing]
  rfl

theorem pending_round_uncalled (begins : Begins h.shell.pending line rest) (uncalled : called line = []) :
    (Act.final (round h)).shell.pending = rest := by
  cases blank : (Text.trim line).isEmpty with
  | true =>
    rw [round_blank begins blank]
    rfl
  | false =>
    have none : (Line.ofText line).words = [] := by
      by_contra some
      rw [Shell.called_of_words blank some] at uncalled
      cases uncalled
    refine pending_round begins blank ?_
    rw [runLine_wordless none]
    rfl

/-- No line that waits is run with any words. -/
def Silent (h : Host α ω) : Prop := calledBy h.shell.pending = []

theorem Silent.round (silent : Silent h) : nextCalled h = [] ∧ Silent (Act.final (round h)) := by
  by_cases usedUp : h.shell.pending = []
  · rw [round_usedUp usedUp]
    refine ⟨?_, silent⟩
    rw [nextCalled, usedUp]
    rfl
  · obtain ⟨line, rest, begins⟩ := Shell.exists_begins usedUp
    have parts := silent
    rw [Silent, Shell.calledBy_begins begins, List.append_eq_nil_iff] at parts
    refine ⟨?_, ?_⟩
    · rw [nextCalled, begins.2]
      exact parts.1
    · rw [Silent, pending_round_uncalled begins parts.1]
      exact parts.2

theorem Silent.runPending (silent : Silent h) (budget : Nat) :
    dispatchedWithin budget h = [] ∧ Silent (Act.final (runPending budget h)) := by
  induction budget generalizing h with
  | zero =>
    rw [final_runPending_zero]
    exact ⟨rfl, silent⟩
  | succ budget ih =>
    obtain ⟨none, after⟩ := silent.round
    rw [dispatchedWithin, none, List.nil_append, runPending_round]
    cases ran : Host.round h with
    | error fault m =>
      rw [ran] at after
      exact ⟨rfl, after⟩
    | ok more m =>
      rw [ran] at after
      cases more with
      | false => exact ⟨rfl, after⟩
      | true => exact ih after

/-- A pass that leaves nothing to be run is the last one that runs a line. -/
theorem runPending_of_silent_round (silent : Silent (Act.final (round h))) (budget : Nat) :
    dispatchedWithin (budget + 1) h = nextCalled h ∧ Silent (Act.final (runPending (budget + 1) h)) := by
  rw [dispatchedWithin, runPending_round]
  cases ran : round h with
  | error fault m =>
    rw [ran] at silent
    exact ⟨List.append_nil _, silent⟩
  | ok more m =>
    rw [ran] at silent
    cases more with
    | false => exact ⟨List.append_nil _, silent⟩
    | true =>
      obtain ⟨none, after⟩ := Silent.runPending (h := m) silent budget
      refine ⟨?_, after⟩
      dsimp only
      rw [none, List.append_nil]

end Host

namespace Client
open GameHost.Host (begun nextCalled dispatched dispatchedWithin round ticked Silent)
open GameHost.Shell (Begins Complete called calledBy openLine splitLine Skipped)

variable {names : NameTable (Action ClientCommand)} {first second : Text} {extra : Nat}

theorem Alike.of_append {α : Type} {rest : Text} {r q : EStateM.Result Fault Session α} (complete : Complete rest)
    (alike : Alike names (rest ++ first) (rest ++ second) r q) : Alike names first second r q := by
  obtain ⟨outcome, ahead, write, more, here, there⟩ := alike
  refine ⟨outcome, ahead ++ rest, write, more.append complete, ?_, ?_⟩
  · rw [here, List.append_assoc]
  · rw [there, List.append_assoc]

/-- Passes have outcomes that differ only so if the lines that are run in them do. -/
theorem Alike.round {s t : Session} {line other rest left : Text} (begins : Begins s.shell.pending line rest)
    (visible : (Text.trim line).isEmpty = false) (too : Begins t.shell.pending other left)
    (also : (Text.trim other).isEmpty = false) (alike : Alike names first second (Host.runLine line .player (s.queue rest))
      (Host.runLine other .player (t.queue left))) : Alike names first second (round s) (round t) := by
  obtain ⟨outcome, ahead, write, complete, here, there⟩ := alike
  rw [Host.round_wordy begins visible, Host.round_wordy too also, here, there]
  cases outcome with
  | error fault m => exact ⟨.error fault m, ahead, write, complete, rfl, rfl⟩
  | ok done m =>
    have same (waiting : Text) (write : Text → Text) : (veil waiting names write m).shell.paused = m.shell.paused := rfl
    dsimp only [Act.moved]
    rw [same, same]
    split
    · exact ⟨.ok false m.goOn, ahead, write, complete, rfl, rfl⟩
    · exact ⟨.ok true m, ahead, write, complete, rfl, rfl⟩

theorem Roomy.of_round {s : Session} {line rest : Text} (roomy : Roomy extra (Act.final (round s)))
    (begins : Begins s.shell.pending line rest) (visible : (Text.trim line).isEmpty = false) :
    Roomy extra (Act.final (Host.runLine line .player (s.queue rest))) := by
  rw [Host.round_wordy begins visible] at roomy
  cases ran : Host.runLine line .player (s.queue rest) with
  | error fault m =>
    rw [ran] at roomy
    exact roomy
  | ok done m =>
    rw [ran] at roomy
    dsimp only at roomy
    split at roomy <;> exact roomy

/-- As long as complete lines wait ahead, the next pass runs the same line in both sessions. -/
theorem alike_round (listed : Listed names) (slack : Slack extra first second) {ahead : Text} (complete : Complete ahead)
    (some : ahead ≠ []) (write : Text → Text) (m : Session)
    (roomy : Roomy extra (Act.final (round (veil (ahead ++ second) names id m)))) :
    nextCalled (veil (ahead ++ first) names write m) = nextCalled (veil (ahead ++ second) names id m) ∧
      Alike names first second (round (veil (ahead ++ first) names write m)) (round (veil (ahead ++ second) names id m)) := by
  obtain ⟨line, rest, more, begins⟩ := complete.begins some
  have here : Begins (veil (ahead ++ first) names write m).shell.pending line (rest ++ first) := begins first
  have there : Begins (veil (ahead ++ second) names id m).shell.pending line (rest ++ second) := begins second
  refine ⟨by rw [nextCalled, nextCalled, here.2, there.2], ?_⟩
  cases visible : (Text.trim line).isEmpty with
  | true =>
    rw [Host.round_blank here visible, Host.round_blank there visible]
    exact ⟨.ok true m, rest, write, more, rfl, rfl⟩
  | false =>
    have solid := Text.ne_nil_of_visible visible
    have wider : Slack extra (rest ++ first) (rest ++ second) := by
      obtain ⟨longer, bounded⟩ := slack
      constructor <;> rw [Text.size_append, Text.size_append] <;> omega
    have ran := alike_runLine listed solid solid rfl wider write m (roomy.of_round there visible) (.inl rfl)
    exact .of_append more (.round here visible there visible ran)

theorem mayForward_congr {s t : Session} {line other : Text} (words : (Line.ofText line).words = (Line.ofText other).words)
    (commands : s.shell.commands = t.shell.commands) (aliases : s.shell.aliases = t.shell.aliases)
    (vars : s.shell.vars = t.shell.vars) :
    mayForward (s.shell.accept line .player) = mayForward (t.shell.accept other .player) := by
  have same : Host.meaning (s.shell.accept line .player) = Host.meaning (t.shell.accept other .player) := by
    unfold Host.meaning Shell.accept
    dsimp only
    rw [words, commands, aliases, vars]
  rw [mayForward, mayForward, same]

/-- A line that is handed to the server leaves alone what waits behind it. -/
theorem pending_of_mayForward {s : Session} {line : Text} (seen : mayForward (s.shell.accept line .player) = true) :
    (Act.final (Host.runLine line .player s)).shell.pending = s.shell.pending := by
  let m : Session := { s with shell := s.shell.accept line .player }
  rw [Host.runLine_eq]
  unfold mayForward at seen
  rcases named : Host.meaning (s.shell.accept line .player) with _ | action | value | _ | _
  all_goals rw [named] at seen
  · cases seen
  · cases action with
    | forward => exact pending_of_commutes (s := m) (commutes_hostForwardLine (unseen_veil _ _))
    | _ => cases seen
  · cases seen
  · cases seen
  · exact pending_of_commutes (s := m) (commutes_runUnknown (unseen_veil _ _))

section

variable {text comment : Text}

/-- The bytes of a comment with the slashes before it. -/
def commentSize (comment : Text) : Nat := Text.size ('/' :: '/' :: comment)

/-- The text with the comment, from the line on that the comment is behind. -/
def commented (text comment : Text) : Text := openLine text ++ '/' :: '/' :: (comment ++ ['\n'])

/-- What is left of the comment behind that line. -/
def commentRest (comment : Text) : Text := (splitLine false (comment ++ ['\n'])).2

/-- The one text is longer by the comment, from the line on that it is behind. -/
theorem slack_commented (text comment : Text) :
    Slack (commentSize comment) (commented text comment) (openLine text ++ ['\n']) := by
  constructor <;> simp only [commented, commentSize, Text.size_append, Text.size_cons, Text.size_nil] <;> omega

theorem slack_commentRest (comment : Text) : Slack (commentSize comment) (commentRest comment) [] := by
  have less := Text.size_le_of_suffix (Shell.splitLine_suffix false (comment ++ ['\n']))
  have newline : Char.utf8Size '\n' = 1 := by decide
  have slash : Char.utf8Size '/' = 1 := by decide
  rw [Text.size_append, Text.size_cons, Text.size_nil, newline] at less
  refine ⟨Nat.zero_le _, ?_⟩
  rw [commentSize, Text.size_cons, Text.size_cons, Text.size_nil, slash]
  unfold commentRest
  omega

/-- At the line that the comment is behind, the same is run in both sessions, and then neither the comment nor what the
server was told of it is seen again. -/
theorem round_commented (skipped : Skipped text comment) (even : Even (text.count '"')) (straight : '\n' ∉ text)
    (listed : Listed names) (write : Text → Text) (m : Session)
    (roomy : Roomy (commentSize comment) (Act.final (round (veil (openLine text ++ ['\n']) names id m)))) :
    nextCalled (veil (commented text comment) names write m) = nextCalled (veil (openLine text ++ ['\n']) names id m) ∧
      (Alike names (commentRest comment) [] (round (veil (commented text comment) names write m))
          (round (veil (openLine text ++ ['\n']) names id m)) ∨
        Silent (Act.final (round (veil (commented text comment) names write m))) ∧
          Silent (Act.final (round (veil (openLine text ++ ['\n']) names id m)))) := by
  obtain ⟨same, silent⟩ := skipped
  obtain ⟨_, _, _, unbroken⟩ := Shell.exists_openLine text
  let line := openLine text ++ '/' :: '/' :: (splitLine false (comment ++ ['\n'])).1
  have here : Begins (veil (commented text comment) names write m).shell.pending line (commentRest comment) :=
    Shell.begins_commented even straight comment
  have there : Begins (veil (openLine text ++ ['\n']) names id m).shell.pending (openLine text) [] :=
    Shell.begins_ended unbroken (by simp [Shell.endsLine]) []
  have left {pending : Text} {u : Session} (kept : (Act.final (round u)).shell.pending = pending)
      (none : calledBy pending = []) : Silent (Act.final (round u)) := by rw [Silent, kept, none]
  refine ⟨?_, ?_⟩
  · rw [nextCalled, nextCalled, here.2, there.2]
    exact same
  cases none : called (openLine text) with
  | nil =>
    exact .inr ⟨left (Host.pending_round_uncalled here (same.trans none)) silent,
      left (Host.pending_round_uncalled there none) rfl⟩
  | cons words later =>
    have some : called (openLine text) ≠ [] := by rw [none]; exact List.cons_ne_nil _ _
    have also : called line ≠ [] := by rw [show called line = _ from same]; exact some
    obtain ⟨one, visible⟩ := Shell.called_of_ne_nil also
    obtain ⟨other, too⟩ := Shell.called_of_ne_nil some
    have words : (Line.ofText line).words = (Line.ofText (openLine text)).words := by
      have both := (one.symm.trans same).trans other
      simpa using both
    cases seen : mayForward ((veil [] names id m).shell.accept (openLine text) .player) with
    | true =>
      have seenHere : mayForward ((veil (commentRest comment) names write m).shell.accept line .player) = true := by
        rw [← seen]
        exact mayForward_congr words rfl rfl rfl
      exact .inr ⟨left (Host.pending_round here visible (pending_of_mayForward seenHere)) silent,
        left (Host.pending_round there too (pending_of_mayForward seen)) rfl⟩
    | false =>
      have ran := alike_runLine listed (Text.ne_nil_of_visible visible) (Text.ne_nil_of_visible too) words
        (slack_commentRest comment) write m (roomy.of_round there too) (.inr seen)
      exact .inl (.round here visible there too ran)

/-- How the session that has the comment stands to the one that does not: they differ in it, or in what follows the line
that it is behind, or nothing is run any more in either. -/
inductive Stands (names : NameTable (Action ClientCommand)) (text comment : Text) (s t : Session) : Prop where
  | before {ahead : Text} {write : Text → Text} {m : Session} (complete : Complete ahead)
      (here : s = veil (ahead ++ commented text comment) names write m)
      (there : t = veil (ahead ++ (openLine text ++ ['\n'])) names id m)
  | behind {ahead : Text} {write : Text → Text} {m : Session} (complete : Complete ahead)
      (here : s = veil (ahead ++ commentRest comment) names write m) (there : t = veil (ahead ++ []) names id m)
  | over (here : Silent s) (there : Silent t)

/-- What a pass makes of two such sessions. -/
structure Passing (names : NameTable (Action ClientCommand)) (text comment : Text) (s t : Session) : Prop where
  called : nextCalled s = nextCalled t
  after : Alike names (commented text comment) (openLine text ++ ['\n']) (round s) (round t) ∨
    Alike names (commentRest comment) [] (round s) (round t) ∨ Silent (Act.final (round s)) ∧ Silent (Act.final (round t))

namespace Stands

variable {s t : Session}

theorem begun (stands : Stands names text comment s t) : Stands names text comment s.begun t.begun := by
  rcases stands with @⟨_, _, m, complete, rfl, rfl⟩ | @⟨_, _, m, complete, rfl, rfl⟩ | ⟨here, there⟩
  · exact .before (m := m.begun) complete rfl rfl
  · exact .behind (m := m.begun) complete rfl rfl
  · exact .over here there

variable (skipped : Skipped text comment) (even : Even (text.count '"')) (straight : '\n' ∉ text) (listed : Listed names)
include skipped even straight listed

theorem round (stands : Stands names text comment s t)
    (roomy : Roomy (commentSize comment) (Act.final (Host.round t))) : Passing names text comment s t := by
  have silent {s t : Session} (here : Silent s) (there : Silent t) : Passing names text comment s t :=
    ⟨here.round.1.trans there.round.1.symm, .inr (.inr ⟨here.round.2, there.round.2⟩)⟩
  rcases stands with @⟨ahead, write, m, complete, rfl, rfl⟩ | @⟨ahead, write, m, complete, rfl, rfl⟩ | ⟨here, there⟩
  · by_cases usedUp : ahead = []
    · subst usedUp
      obtain ⟨called, after⟩ := round_commented skipped even straight listed write m roomy
      exact ⟨called, .inr after⟩
    · obtain ⟨called, after⟩ := alike_round listed (slack_commented text comment) complete usedUp write m roomy
      exact ⟨called, .inl after⟩
  · by_cases usedUp : ahead = []
    · subst usedUp
      exact silent skipped.2 rfl
    · obtain ⟨called, after⟩ := alike_round listed (slack_commentRest comment) complete usedUp write m roomy
      exact ⟨called, .inr (.inl after)⟩
  · exact silent here there

/-- By induction on the passes: the lines that are run have the same words, and the sessions still stand so at the end. -/
theorem runPending (stands : Stands names text comment s t) (budget : Nat)
    (roomy : ∀ passes, Roomy (commentSize comment) (Act.final (Host.runPending passes t))) :
    dispatchedWithin budget s = dispatchedWithin budget t ∧
      Stands names text comment (Act.final (Host.runPending budget s)) (Act.final (Host.runPending budget t)) := by
  induction budget generalizing s t with
  | zero =>
    rw [Host.final_runPending_zero, Host.final_runPending_zero]
    exact ⟨rfl, stands⟩
  | succ budget ih =>
    have room := roomy 1
    rw [Host.final_runPending_one] at room
    obtain ⟨called, after⟩ := stands.round skipped even straight listed room
    have go {first second : Text} (alike : Alike names first second (Host.round s) (Host.round t))
        (stands : ∀ ahead write m, Complete ahead →
          Stands names text comment (veil (ahead ++ first) names write m) (veil (ahead ++ second) names id m)) :
        dispatchedWithin (budget + 1) s = dispatchedWithin (budget + 1) t ∧ Stands names text comment
          (Act.final (Host.runPending (budget + 1) s)) (Act.final (Host.runPending (budget + 1) t)) := by
      obtain ⟨outcome, ahead, write, complete, here, there⟩ := alike
      rw [dispatchedWithin, dispatchedWithin, called, Host.runPending_round, Host.runPending_round, here, there]
      cases outcome with
      | error fault m => exact ⟨rfl, stands ahead write m complete⟩
      | ok more m =>
        cases more with
        | false => exact ⟨rfl, stands ahead write m complete⟩
        | true =>
          have later := ih (stands ahead write m complete) fun passes => by
            have still := roomy (passes + 1)
            rw [Host.runPending_round, there] at still
            exact still
          exact ⟨congrArg (nextCalled t ++ ·) later.1, later.2⟩
    rcases after with alike | alike | ⟨here, there⟩
    · exact go alike fun ahead write m complete => .before complete rfl rfl
    · exact go alike fun ahead write m complete => .behind complete rfl rfl
    · obtain ⟨one, left⟩ := Host.runPending_of_silent_round here budget
      obtain ⟨other, too⟩ := Host.runPending_of_silent_round there budget
      exact ⟨one.trans (called.trans other.symm), .over left too⟩

theorem ticked (stands : Stands names text comment s t) (calls : Nat)
    (roomy : ∀ calls passes, Roomy (commentSize comment) (Act.final (Host.runPending passes (Host.ticked calls t).begun))) :
    dispatched (Host.ticked calls s) = dispatched (Host.ticked calls t) := by
  induction calls generalizing s t with
  | zero => exact (stands.begun.runPending skipped even straight listed _ (roomy 0)).1
  | succ calls ih =>
    have ran := stands.begun.runPending skipped even straight listed Host.lineBudget (roomy 0)
    exact ih ran.2 fun calls => roomy (calls + 1)

end Stands

/-- The session with text queued behind all other text. -/
def entered (text : Text) (s : Session) : Session := { s with shell := s.shell.addText text }

/-- At every pass of every call there is room for so many bytes more. -/
def Spacious (extra : Nat) (s : Session) : Prop :=
  ∀ calls passes, Roomy extra (Act.final (Host.runPending passes (ticked calls s).begun))

/-- A session that knows no names and has no server. -/
def Bare (s : Session) : Prop :=
  s.shell.commands = [] ∧ s.shell.aliases = [] ∧ s.shell.vars = [] ∧ s.shell.paused = false ∧ s.world.connected = false

theorem entered_eq {s : Session} (idle : s.shell.pending = []) (fits : Text.size text < Shell.pendingLimit) :
    entered text s = veil text s.shell.commands id s := by
  have room : s.shell.hasRoom text = true := by
    rw [Shell.hasRoom, idle, Text.size_nil, Nat.zero_add]
    exact decide_eq_true fits
  rw [entered, Shell.addText, if_pos room, idle]
  rfl

namespace Bare

variable {s : Session}

theorem queue (bare : Bare s) (text : Text) : Bare (s.queue text) := bare

theorem runLine (bare : Bare s) (line : Text) :
    ∃ t, Host.runLine line .player s = .ok () t ∧ Bare t ∧ t.shell.pending = s.shell.pending := by
  obtain ⟨commands, aliases, vars, going, alone⟩ := bare
  have still : Bare { s with shell := s.shell.accept line .player } := ⟨commands, aliases, vars, going, alone⟩
  have unknown : Host.meaning (s.shell.accept line .player) = .nothing ∨
      Host.meaning (s.shell.accept line .player) = .unknown := by
    unfold Host.meaning Shell.accept
    dsimp only
    rw [commands, aliases, vars]
    cases (Line.ofText line).words with
    | nil => exact .inl rfl
    | cons name later => exact .inr rfl
  rw [Host.runLine_eq]
  rcases unknown with nothing | unknown
  · rw [nothing]
    exact ⟨_, rfl, still, rfl⟩
  · have idle : Program.forwardsUnknown (α := ClientCommand) s.world = false := by
      change (s.world.connected && _) = false
      rw [alone]
      rfl
    rw [unknown, Host.runMeaning, Host.runUnknown, Act.bind_get, idle, Bool.and_false, Bool.false_and]
    exact ⟨_, rfl, still, rfl⟩

/-- A pass takes the first line off what waits, and does no more. -/
theorem round {line rest : Text} (bare : Bare s) (begins : Begins s.shell.pending line rest) :
    ∃ t, Host.round s = .ok true t ∧ Bare t ∧ t.shell.pending = rest := by
  cases visible : (Text.trim line).isEmpty with
  | true => exact ⟨_, Host.round_blank begins visible, bare.queue rest, rfl⟩
  | false =>
    obtain ⟨t, ran, still, left⟩ := (bare.queue rest).runLine line
    refine ⟨t, ?_, still, left⟩
    rw [Host.round_wordy begins visible, ran]
    dsimp only
    rw [show t.shell.paused = false from still.2.2.2.1]
    rfl

theorem runPending (bare : Bare s) (budget : Nat) : Bare (Act.final (Host.runPending budget s)) ∧
    (Act.final (Host.runPending budget s)).shell.pending <:+ s.shell.pending := by
  induction budget generalizing s with
  | zero =>
    rw [Host.final_runPending_zero]
    exact ⟨bare, List.suffix_refl _⟩
  | succ budget ih =>
    rw [Host.runPending_round]
    by_cases usedUp : s.shell.pending = []
    · rw [Host.round_usedUp usedUp]
      exact ⟨bare, List.suffix_refl _⟩
    · obtain ⟨line, rest, begins⟩ := Shell.exists_begins usedUp
      obtain ⟨t, ran, still, left⟩ := bare.round begins
      obtain ⟨after, suffix⟩ := ih still
      rw [ran]
      exact ⟨after, suffix.trans (left ▸ begins.suffix)⟩

theorem ticked (bare : Bare s) (calls : Nat) :
    Bare (Host.ticked calls s) ∧ (Host.ticked calls s).shell.pending <:+ s.shell.pending := by
  induction calls generalizing s with
  | zero => exact ⟨bare, List.suffix_refl _⟩
  | succ calls ih =>
    have known : Bare s.begun := bare
    obtain ⟨still, left⟩ := known.runPending Host.lineBudget
    obtain ⟨after, suffix⟩ := ih (s := Act.final (Host.tick s)) still
    exact ⟨after, suffix.trans left⟩

theorem spacious (bare : Bare s) (fits : Text.size s.shell.pending + extra < Shell.pendingLimit) : Spacious extra s := by
  intro calls passes
  obtain ⟨still, left⟩ := bare.ticked calls
  have known : Bare (Host.ticked calls s).begun := still
  have less := Text.size_le_of_suffix ((known.runPending passes).2.trans left)
  exact Nat.lt_of_le_of_lt (Nat.add_le_add_right less extra) fits

/-- All lines are run, each with its words. -/
theorem dispatchedWithin (bare : Bare s) {budget : Nat} (enough : s.shell.pending.length ≤ budget) :
    Host.dispatchedWithin budget s = calledBy s.shell.pending := by
  induction budget generalizing s with
  | zero =>
    rw [List.length_eq_zero_iff.1 (Nat.le_zero.1 enough)]
    rfl
  | succ budget ih =>
    by_cases usedUp : s.shell.pending = []
    · have silent : Silent s := by rw [Silent, usedUp]; rfl
      rw [(silent.runPending _).1, silent]
    · obtain ⟨line, rest, begins⟩ := Shell.exists_begins usedUp
      obtain ⟨t, ran, still, left⟩ := bare.round begins
      have less := begins.length_lt
      have later := ih still (by rw [left]; omega)
      rw [Host.dispatchedWithin, ran, nextCalled, begins.2, Shell.calledBy_begins begins, ← left]
      exact congrArg (called line ++ ·) later

end Bare

/-- In every host that has room for it, text with a comment behind it runs the same commands with the same words as without
it, in every call that follows, exactly if the comment is skipped. Behind a line whose quotes are closed and whose blanks
are gaps, this is so exactly if nothing is run of what follows the first separator in the comment. -/
theorem dispatched_commented_iff (spaced : Token.Spaced text) (even : Even (text.count '"')) (straight : '\n' ∉ text)
    (fits : Text.size (text ++ '/' :: '/' :: (comment ++ ['\n'])) < Shell.pendingLimit) :
    ((∀ s : Session, Listed s.shell.commands → s.shell.pending = [] →
        Spacious (commentSize comment) (entered (text ++ ['\n']) s) →
        ∀ calls, dispatched (ticked calls (entered (text ++ '/' :: '/' :: (comment ++ ['\n'])) s)) =
          dispatched (ticked calls (entered (text ++ ['\n']) s))) ↔ Skipped text comment) ∧
      ((∀ c ∈ text.getLast?, Token.isGap c = true) → Token.closes (openLine text) = true →
        (∀ c ∈ openLine text, Text.isBlank c = true → Token.isGap c = true) →
        (Skipped text comment ↔ calledBy (commentRest comment) = [])) := by
  have whole : Text.size (text ++ '/' :: '/' :: (comment ++ ['\n'])) =
      Text.size (text ++ ['\n']) + commentSize comment := by
    simp only [commentSize, Text.size_append, Text.size_cons, Text.size_nil]
    omega
  have less : Text.size (text ++ ['\n']) < Shell.pendingLimit := by omega
  refine ⟨⟨fun same => ?_, fun skipped s listed idle spacious calls => ?_⟩, fun ending closed plain =>
    Shell.skipped_iff ending straight closed plain⟩
  · -- a host that knows no names runs every line and does nothing else
    let s : Session := ⟨Shell.empty Console.captured, Client.start (SearchPath.ofBase "/") (Disk.empty [])⟩
    have bare : Bare s := ⟨rfl, rfl, rfl, rfl, rfl⟩
    have idle : s.shell.pending = [] := rfl
    have runs {waiting : Text} (short : Text.size waiting < Shell.pendingLimit) :
        dispatched (entered waiting s) = calledBy waiting := by
      have enough : waiting.length ≤ Host.lineBudget := by
        have length := Text.length_le_size waiting
        have bound : Shell.pendingLimit ≤ Host.lineBudget := by decide
        omega
      rw [entered_eq idle short]
      exact Bare.dispatchedWithin (s := (veil waiting s.shell.commands id s).begun) bare enough
    have spacious : Spacious (commentSize comment) (entered (text ++ ['\n']) s) := by
      rw [entered_eq idle less]
      exact Bare.spacious (s := veil (text ++ ['\n']) s.shell.commands id s) bare (whole ▸ fits)
    have equal := same s (fun name action found => nomatch found) idle spacious 0
    rw [ticked, ticked, runs fits, runs less] at equal
    exact (Shell.calledBy_commented_iff spaced even straight).1 equal
  · obtain ⟨before, split, complete, _⟩ := Shell.exists_openLine text
    have stands : Stands s.shell.commands text comment (entered (text ++ '/' :: '/' :: (comment ++ ['\n'])) s)
        (entered (text ++ ['\n']) s) := by
      rw [entered_eq idle fits, entered_eq idle less]
      refine @Stands.before _ _ _ _ _ before id s complete ?_ ?_
      · rw [commented, ← List.append_assoc, ← split]
      · rw [← List.append_assoc, ← split]
    exact stands.ticked skipped even straight listed calls spacious

end

/-- What follows a separator in a comment is run. -/
theorem separated_comment_called :
    ¬Skipped "echo hi " " x;echo boo" ∧ ∃ s : Session, Listed s.shell.commands ∧ s.shell.pending = [] ∧
      Spacious (commentSize " x;echo boo") (entered "echo hi \n" s) ∧
      ∃ calls, dispatched (ticked calls (entered "echo hi // x;echo boo\n" s)) ≠
        dispatched (ticked calls (entered "echo hi \n" s)) := by
  have loud : ¬Skipped "echo hi " " x;echo boo" := by decide
  have same := (dispatched_commented_iff (show Token.Spaced "echo hi " by decide) (by decide) (by decide)
    (show Text.size ("echo hi ".toList ++ '/' :: '/' :: (" x;echo boo".toList ++ ['\n'])) < Shell.pendingLimit by decide)).1
  refine ⟨loud, ?_⟩
  by_contra none
  refine loud (same.1 fun s listed idle spacious calls => ?_)
  by_contra differs
  exact none ⟨s, listed, idle, spacious, calls, differs⟩

end Client

end GameHost
