import GameHost.Arguments
import GameHost.Proofs.Shell.Script

/-!
The commands among the program's arguments, and what taking the settings out of the arguments does to them. Each command
has the arguments up to the next command or option as its own. Taking out the settings leaves the other commands as they
were exactly if no command is in the place of a setting's name or value, and none that is open before a setting goes on
after it.
-/
namespace GameHost.Arguments

/-- The name of the command that settings are. -/
def setName : Text := "set"

/-- What makes a setting of the two arguments after it. -/
def marker : Text := '+' :: setName

def isCommand (arg : Text) : Bool := arg.head? == some '+'

/-- The arguments that a command has as its own, those up to the next command or option that are not empty. -/
def operands (args : List Text) : List Text :=
  (args.takeWhile fun arg => !isCommand arg && !isOption arg).filter (! ·.isEmpty)

/-- The commands among some arguments, each with its operands. -/
def commandGroups : List Text → List (List Text)
  | [] => []
  | arg :: rest =>
    match arg with
    | '+' :: name => (name :: operands rest) :: commandGroups rest
    | _ => commandGroups rest

def groupLine (group : List Text) : Text := Text.spaced group ++ ['\n']

/-- The settings that are taken, from the left; one that the arguments end within is none. -/
def taken : List Text → List (Text × Text)
  | [] => []
  | first :: rest =>
    if first == marker then
      match rest with
      | name :: value :: later => (name, value) :: taken later
      | _ => []
    else taken rest

/-- Whether the argument is a command that is no setting. -/
def isOther (arg : Text) : Bool := isCommand arg && arg != marker

/-- No command is lost with a setting, and no argument after a setting goes to the command before it. The flag says that
a command is open. -/
def apart : Bool → List Text → Bool
  | _, [] => true
  | isOpen, first :: rest =>
    if first == marker then
      match rest with
      | [] => true
      | [name] => !isOther name
      | name :: value :: later =>
        !isOther name && !isOther value && (!isOpen || (operands later).isEmpty) && apart isOpen later
    else apart (isCommand first || isOpen && !isOption first) rest

/-- The arguments without the settings. -/
abbrev kept (args : List Text) : List Text := (takeSettings args).2

/-- The commands that are no settings. -/
def others (groups : List (List Text)) : List (List Text) := groups.filter fun group => group.head? != some setName

theorem spaced_cons (word : Text) (words : List Text) :
    Text.spaced (word :: words) = word ++ words.flatMap (' ' :: ·) := by
  induction words generalizing word with
  | nil => simp [Text.spaced, List.intercalate]
  | cons next words ih =>
    have later := ih next
    unfold Text.spaced List.intercalate at later ⊢
    rw [List.intersperse_cons_cons, List.flatten_cons, List.flatten_cons, later]
    simp

theorem exists_of_isCommand {arg : Text} (command : isCommand arg = true) : ∃ name, arg = '+' :: name := by
  cases arg with
  | nil => cases command
  | cons c name =>
    have first : c = '+' := by simpa [isCommand] using command
    exact ⟨name, first ▸ rfl⟩

theorem operands_stop {arg : Text} (stop : isCommand arg = true ∨ isOption arg = true) (rest : List Text) :
    operands (arg :: rest) = [] := by
  unfold operands
  rw [List.takeWhile_cons_of_neg (by rcases stop with stop | stop <;> simp [stop])]
  rfl

theorem operands_plain {arg : Text} (plain : isCommand arg = false ∧ isOption arg = false) (rest : List Text) :
    operands (arg :: rest) = [arg].filter (! ·.isEmpty) ++ operands rest := by
  unfold operands
  rw [List.takeWhile_cons_of_pos (by simp [plain]), ← List.singleton_append, List.filter_append]

theorem commandGroups_other {arg : Text} (other : isCommand arg = false) (rest : List Text) :
    commandGroups (arg :: rest) = commandGroups rest := by
  rw [commandGroups]
  rintro name rfl
  cases other

/-- The late text is a line for every command, and what is left of the one that is open goes before them. -/
theorem commandText_eq (isOpen : Bool) (args : List Text) : commandText isOpen args =
    (if isOpen then (operands args).flatMap (' ' :: ·) ++ ['\n'] else []) ++ (commandGroups args).flatMap groupLine := by
  induction args generalizing isOpen with
  | nil => cases isOpen <;> rfl
  | cons arg rest ih =>
    by_cases command : isCommand arg = true
    · obtain ⟨name, rfl⟩ := exists_of_isCommand command
      rw [commandText, ih, operands_stop (.inl command)]
      cases isOpen <;> simp [commandGroups, groupLine, spaced_cons]
    · have command : isCommand arg = false := by simpa using command
      have text : commandText isOpen (arg :: rest) =
          if isOption arg then (if isOpen then ['\n'] else []) ++ commandText false rest
          else if isOpen && !arg.isEmpty then ' ' :: arg ++ commandText isOpen rest
          else commandText isOpen rest := by
        rw [commandText]
        rintro name rfl
        cases command
      rw [text, commandGroups_other command]
      by_cases option : isOption arg = true
      · rw [if_pos option, ih, operands_stop (.inr option)]
        cases isOpen <;> simp
      · have option : isOption arg = false := by simpa using option
        rw [if_neg (by simp [option]), ih, operands_plain ⟨command, option⟩]
        cases arg <;> cases isOpen <;> simp

theorem commands_eq (args : Arguments) : commands args = (commandGroups (args.drop 1)).flatMap groupLine :=
  commandText_eq false _

theorem isOther_iff {name : Text} : isOther ('+' :: name) = true ↔ name ≠ setName := by
  simp [isOther, isCommand, marker]

theorem others_cons (name : Text) (operands : List Text) (groups : List (List Text)) :
    others ((name :: operands) :: groups) =
      (if name = setName then [] else [name :: operands]) ++ others groups := by
  unfold others
  rw [List.filter_cons]
  by_cases set : name = setName <;> simp [set]

/-- An argument adds a command of its own, unless it begins none or a setting. -/
theorem others_commandGroups_cons (arg : Text) (rest : List Text) : others (commandGroups (arg :: rest)) =
    (if isOther arg then [arg.drop 1 :: operands rest] else []) ++ others (commandGroups rest) := by
  by_cases command : isCommand arg = true
  · obtain ⟨name, rfl⟩ := exists_of_isCommand command
    rw [commandGroups, others_cons]
    by_cases set : name = setName
    · rw [if_pos set, if_neg (by simpa [isOther_iff] using set)]
    · rw [if_neg set, if_pos (isOther_iff.2 set)]
      rfl
  · rw [commandGroups_other (by simpa using command), if_neg (by simp [isOther, command])]
    rfl

theorem kept_setting (name value : Text) (later : List Text) :
    kept (marker :: name :: value :: later) = [] :: [] :: [] :: kept later :=
  rfl

theorem takeSettings_other {first : Text} (other : first ≠ marker) (rest : List Text) :
    takeSettings (first :: rest) = ((takeSettings rest).1, first :: kept rest) := by
  have unlike : ¬(first == "+set".toList) = true := fun same => other (eq_of_beq same)
  rw [takeSettings.eq_def]
  dsimp only
  rw [if_neg unlike]

theorem kept_other {first : Text} (other : first ≠ marker) (rest : List Text) :
    kept (first :: rest) = first :: kept rest :=
  congrArg Prod.snd (takeSettings_other other rest)

theorem operands_blank (args : List Text) : operands ([] :: args) = operands args :=
  operands_plain ⟨rfl, rfl⟩ args

theorem commandGroups_blank (args : List Text) : commandGroups ([] :: args) = commandGroups args :=
  commandGroups_other rfl args

/-- What the recursion over the settings goes by. -/
theorem settings_induction {motive : List Text → Prop} (nil : motive []) (cut : motive [marker])
    (short : ∀ name, motive [marker, name])
    (setting : ∀ name value later, motive later → motive (marker :: name :: value :: later))
    (other : ∀ first rest, first ≠ marker → motive rest → motive (first :: rest)) (args : List Text) : motive args := by
  induction length : args.length using Nat.strong_induction_on generalizing args with
  | _ size ih =>
    match args with
    | [] => exact nil
    | first :: rest =>
      by_cases same : first = marker
      · subst same
        match rest with
        | [] => exact cut
        | [name] => exact short name
        | name :: value :: later =>
          exact setting name value later (ih _ (by simp only [List.length_cons] at length; omega) later rfl)
      · exact other first rest same (ih _ (by simp only [List.length_cons] at length; omega) rest rfl)

/-- The arguments that a command has before the first setting stay its own. -/
theorem operands_prefix_kept (args : List Text) : operands args <+: operands (kept args) := by
  have marked (rest : List Text) : operands (marker :: rest) = [] := operands_stop (.inl rfl) rest
  induction args using settings_induction with
  | nil => exact List.prefix_rfl
  | cut | short _ => rw [marked]; exact List.nil_prefix
  | setting name value later _ => rw [marked]; exact List.nil_prefix
  | other first rest unlike ih =>
    rw [kept_other unlike]
    by_cases stop : isCommand first = true ∨ isOption first = true
    · rw [operands_stop stop]
      exact List.nil_prefix
    · have plain : isCommand first = false ∧ isOption first = false := by simpa using stop
      rw [operands_plain plain, operands_plain plain]
      exact (List.prefix_append_right_inj _).2 ih

/-- Taking out settings adds no command. -/
theorem length_commandGroups_kept (args : List Text) :
    (commandGroups (kept args)).length ≤ (others (commandGroups args)).length := by
  induction args using settings_induction with
  | nil => exact Nat.le_refl 0
  | cut | short _ => exact Nat.zero_le _
  | setting name value later ih =>
    rw [kept_setting, commandGroups_blank, commandGroups_blank, commandGroups_blank, others_commandGroups_cons,
      others_commandGroups_cons, others_commandGroups_cons]
    simp only [List.length_append]
    omega
  | other first rest unlike ih =>
    rw [kept_other unlike, others_commandGroups_cons]
    by_cases command : isCommand first = true
    · obtain ⟨name, rfl⟩ := exists_of_isCommand command
      rw [commandGroups, if_pos (by simp [isOther, command, unlike])]
      simpa using ih
    · rw [commandGroups_other (by simpa using command)]
      simp only [List.length_append]
      omega

/-- The settings can be taken out: the commands that are none stay the same, with the command that is open. -/
def Intact (isOpen : Bool) (args : List Text) : Prop :=
  (isOpen = true → operands (kept args) = operands args) ∧ commandGroups (kept args) = others (commandGroups args)

theorem intact_iff (isOpen : Bool) (args : List Text) : Intact isOpen args ↔ apart isOpen args = true := by
  have marked (rest : List Text) : operands (marker :: rest) = [] := operands_stop (.inl rfl) rest
  have unmarked : isOther marker = false := by decide
  induction args using settings_induction generalizing isOpen with
  | nil => simp [Intact, apart, kept, takeSettings, commandGroups, others]
  | cut =>
    unfold Intact
    have gone : kept [marker] = [[]] := rfl
    rw [gone, marked, others_commandGroups_cons]
    simp [apart, commandGroups, others, operands, unmarked, isCommand, isOption]
  | short name =>
    unfold Intact
    have gone : kept [marker, name] = [[], []] := rfl
    rw [gone, marked, others_commandGroups_cons, others_commandGroups_cons]
    cases other : isOther name <;> simp [apart, commandGroups, others, operands, unmarked, other, isCommand, isOption]
  | setting name value later ih =>
    have few := length_commandGroups_kept later
    have start := operands_prefix_kept later
    have rest : Intact isOpen later ↔ apart isOpen later = true := ih isOpen
    unfold Intact at rest ⊢
    rw [marked, kept_setting, operands_blank, operands_blank, operands_blank, commandGroups_blank, commandGroups_blank,
      commandGroups_blank, others_commandGroups_cons, others_commandGroups_cons, others_commandGroups_cons, unmarked]
    have unfolded : apart isOpen (marker :: name :: value :: later) = (!isOther name && !isOther value &&
        (!isOpen || (operands later).isEmpty) && apart isOpen later) := by simp [apart]
    rw [unfolded, Bool.and_eq_true, ← rest]
    constructor
    · rintro ⟨idle, same⟩
      have lengths := congrArg List.length same
      simp only [List.length_append] at lengths
      have noName : isOther name = false := by
        by_contra other
        rw [Bool.not_eq_false] at other
        rw [if_pos other] at lengths
        simp at lengths
        omega
      have noValue : isOther value = false := by
        by_contra other
        rw [Bool.not_eq_false] at other
        rw [if_pos other] at lengths
        simp at lengths
        omega
      rw [noName, noValue] at same
      have none : isOpen = true → operands later = [] := fun opened =>
        List.prefix_nil.1 (idle opened ▸ start)
      refine ⟨?_, fun opened => (idle opened).trans (none opened).symm, same⟩
      cases isOpen <;> simp_all
    · rintro ⟨fine, idle, same⟩
      simp only [Bool.and_eq_true, Bool.not_eq_true', Bool.or_eq_true, List.isEmpty_iff] at fine
      obtain ⟨⟨noName, noValue⟩, none⟩ := fine
      refine ⟨fun opened => (idle opened).trans ?_, by rw [noName, noValue]; exact same⟩
      rcases none with closed | none
      · rw [opened] at closed
        cases closed
      · exact none
  | other first rest unlike ih =>
    have unfolded : apart isOpen (first :: rest) = apart (isCommand first || isOpen && !isOption first) rest := by
      have other : ¬(first == marker) = true := by simpa using unlike
      rw [apart.eq_def]
      exact if_neg other
    have later : Intact _ rest ↔ _ = true := ih (isCommand first || isOpen && !isOption first)
    unfold Intact at later ⊢
    rw [unfolded, ← later, kept_other unlike, others_commandGroups_cons]
    by_cases command : isCommand first = true
    · have named : isOther first = true := by simp [isOther, command, unlike]
      obtain ⟨name, rfl⟩ := exists_of_isCommand command
      rw [operands_stop (.inl command), operands_stop (.inl command), commandGroups, named]
      simp [command]
    · have command : isCommand first = false := by simpa using command
      have plain : isOther first = false := by simp [isOther, command]
      rw [commandGroups_other command, command, plain]
      by_cases option : isOption first = true
      · rw [operands_stop (.inr option), operands_stop (.inr option)]
        simp [option]
      · have option : isOption first = false := by simpa using option
        rw [operands_plain ⟨command, option⟩, operands_plain ⟨command, option⟩]
        simp [option]

end GameHost.Arguments
