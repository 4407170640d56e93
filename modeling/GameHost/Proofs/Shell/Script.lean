import GameHost.Proofs.Act
import GameHost.Proofs.Shell.Line
import GameHost.Proofs.Shell.Round
import Mathlib.Data.List.TakeWhile

/-!
Running a script that waits as pending text: line by line, where the splitter leaves every line whole and no
line looks at what waits after it. Such a script does what its lines do one after another.
-/
namespace GameHost

/-- A text with something visible in it is not blank. -/
theorem Text.trim_visible {c : Char} {text : Text} (member : c ∈ text) (visible : isBlank c = false) :
    (trim text).isEmpty = false := by
  refine Bool.eq_false_iff.2 fun none => ?_
  rw [trim, trimEnd, List.isEmpty_reverse, List.isEmpty_iff, List.dropWhile_eq_nil_iff] at none
  have kept : c ∈ trimStart text := by
    rw [← List.takeWhile_append_dropWhile (p := isBlank) (l := text)] at member
    rcases List.mem_append.1 member with blank | kept
    · rw [List.all_eq_true.1 List.all_takeWhile c blank] at visible
      cases visible
    · exact kept
  rw [none c (List.mem_reverse.2 kept)] at visible
  cases visible

namespace Shell

/-- The text has no end of a line in it. The flag says that a quote is open where it begins. -/
def whole : Bool → Text → Bool
  | _, [] => true
  | quoted, c :: rest => !endsLine quoted c && whole (quoted != (c == '"')) rest

/-- The lines with a newline after each. -/
def script (lines : List Text) : Text := lines.flatMap fun line => line ++ ['\n']

@[simp] theorem script_nil : script [] = [] := rfl

@[simp] theorem script_cons (line : Text) (lines : List Text) :
    script (line :: lines) = line ++ '\n' :: script lines := by
  simp [script]

@[simp] theorem script_append (first later : List Text) : script (first ++ later) = script first ++ script later := by
  simp [script]

theorem length_le_script (lines : List Text) : lines.length ≤ (script lines).length := by
  induction lines with
  | nil => exact Nat.le_refl 0
  | cons line lines ih =>
    rw [script_cons, List.length_append, List.length_cons, List.length_cons]
    omega

theorem splitLine_whole {quoted : Bool} {line : Text} (unbroken : whole quoted line = true) (rest : Text) :
    splitLine quoted (line ++ '\n' :: rest) = (line, rest) := by
  induction line generalizing quoted with
  | nil => simp [splitLine, endsLine]
  | cons c line ih =>
    simp only [whole, Bool.and_eq_true, Bool.not_eq_true'] at unbroken
    simp [splitLine, unbroken.1, ih unbroken.2]

/-- Characters that neither end a line nor open or close a quote there. -/
def Inert (quoted : Bool) (text : Text) : Prop := ∀ c ∈ text, endsLine quoted c = false ∧ c ≠ '"'

-- A search for the instance could also find the one that goes through all characters.
instance (quoted : Bool) (text : Text) : Decidable (Inert quoted text) :=
  List.decidableBAll (fun c => endsLine quoted c = false ∧ c ≠ '"') text

theorem whole_append {quoted : Bool} {text : Text} (inert : Inert quoted text) (rest : Text) :
    whole quoted (text ++ rest) = whole quoted rest := by
  induction text with
  | nil => rfl
  | cons c text ih =>
    obtain ⟨inside, other⟩ := inert c List.mem_cons_self
    have same : (quoted != (c == '"')) = quoted := by rw [beq_false_of_ne other]; cases quoted <;> rfl
    rw [List.cons_append, whole, inside, same, ih fun c member => inert c (List.mem_cons_of_mem _ member)]
    rfl

end Shell

namespace Host
open Shell (whole script)

variable {α ω : Type}

/-- The host with some text, and no other, waiting to be run. -/
def queue (text : Text) (h : Host α ω) : Host α ω := { h with shell := { h.shell with pending := text } }

theorem askShell_nextLine {line rest : Text} (unbroken : whole false line = true) (h : Host α ω) :
    askShell Shell.nextLine (h.queue (line ++ '\n' :: rest)) = .ok (some line) (h.queue rest) := by
  have split := Shell.splitLine_whole unbroken rest
  have some : (line ++ '\n' :: rest).isEmpty = false := by cases line <;> rfl
  simp [askShell, Shell.nextLine, queue, split, some]

theorem onShell_insertText {h : Host α ω} {text : Text} (room : h.shell.hasRoom text = true) :
    onShell (Shell.insertText text) h = .ok () (h.queue (text ++ h.shell.pending)) := by
  simp only [onShell, Act.modify_eq, Shell.insertText, if_pos room, queue]

theorem meaning_command {s : Shell α} {name : Text} {later : List Text} {action : Action α}
    (words : s.line.words = name :: later) (known : NameTable.get? s.commands name = some action) :
    meaning s = .command action := by
  simp [meaning, words, known]

variable [Program α ω]

theorem runPending_empty (budget : Nat) (h : Host α ω) : runPending budget (h.queue []) = .ok () (h.queue []) := by
  cases budget <;> rfl

/-- The line leads from one host to the other, whatever waits behind it, and leaves it to be run. -/
def Leads (line : Text) (h t : Host α ω) : Prop :=
  t.shell.paused = false ∧ ∀ rest, runLine line .player (h.queue rest) = .ok () (t.queue rest)

inductive Runs : List Text → Host α ω → Host α ω → Prop where
  | done (h : Host α ω) : Runs [] h h
  | line {text lines} {h m t : Host α ω} (unbroken : whole false text = true)
      (wordy : (Text.trim text).isEmpty = false) (leads : Leads text h m) (more : Runs lines m t) :
      Runs (text :: lines) h t
  | blank {text lines} {h t : Host α ω} (unbroken : whole false text = true)
      (blank : (Text.trim text).isEmpty = true) (more : Runs lines h t) : Runs (text :: lines) h t

theorem Runs.append {first later : List Text} {h m t : Host α ω} (begun : Runs first h m) (more : Runs later m t) :
    Runs (first ++ later) h t := by
  induction begun with
  | done h => exact more
  | line unbroken wordy leads _ ih => exact .line unbroken wordy leads (ih more)
  | blank unbroken blank _ ih => exact .blank unbroken blank (ih more)

theorem runPending_line {line rest : Text} {h t : Host α ω} (unbroken : whole false line = true)
    (wordy : (Text.trim line).isEmpty = false) (leads : Leads line h t) (budget : Nat) :
    runPending (budget + 1) (h.queue (line ++ '\n' :: rest)) = runPending budget (t.queue rest) := by
  have going : (t.queue rest).shell.paused = false := leads.1
  rw [runPending, Act.bind_of_ok (askShell_nextLine unbroken h)]
  dsimp only
  rw [if_neg (by simp [wordy]), Act.bind_of_ok (leads.2 rest), Act.bind_get, if_neg (by simp [going])]

theorem runPending_blank {line rest : Text} (unbroken : whole false line = true)
    (blank : (Text.trim line).isEmpty = true) (h : Host α ω) (budget : Nat) :
    runPending (budget + 1) (h.queue (line ++ '\n' :: rest)) = runPending budget (h.queue rest) := by
  rw [runPending, Act.bind_of_ok (askShell_nextLine unbroken h)]
  dsimp only
  rw [if_pos blank]

theorem runPending_script {lines : List Text} {h t : Host α ω} (runs : Runs lines h t) (spare : Nat) (rest : Text) :
    runPending (lines.length + spare) (h.queue (script lines ++ rest)) = runPending spare (t.queue rest) := by
  induction runs with
  | done h =>
    rw [List.length_nil, Nat.zero_add]
    rfl
  | line unbroken wordy leads _ ih =>
    rw [List.length_cons, Nat.add_right_comm, Shell.script_cons, List.append_assoc, List.cons_append,
      runPending_line unbroken wordy leads, ih]
  | blank unbroken blank _ ih =>
    rw [List.length_cons, Nat.add_right_comm, Shell.script_cons, List.append_assoc, List.cons_append,
      runPending_blank unbroken blank, ih]

/-- A script that fits as pending text is run to its end in one frame. -/
theorem tick_script {lines : List Text} {h t : Host α ω}
    (runs : Runs lines { h with shell := { h.shell with expansions := 0 } } t)
    (short : Text.size (script lines) < Shell.pendingLimit) :
    tick (h.queue (script lines)) = .ok () (t.queue []) := by
  have count : lines.length ≤ lineBudget := by
    have first := Shell.length_le_script lines
    have second := Text.length_le_size (script lines)
    have bound : Shell.pendingLimit ≤ lineBudget := by decide
    omega
  obtain ⟨spare, budget⟩ := Nat.exists_eq_add_of_le count
  change runPending lineBudget (queue (script lines) { h with shell := { h.shell with expansions := 0 } }) = _
  rw [← List.append_nil (script lines), budget, runPending_script runs, runPending_empty]

end Host

end GameHost
