import GameHost.Proofs.Act
import GameHost.Proofs.Shell.Names

/-!
One pass over the text that waits to be run, and the room that text and aliases leave for more passes. A line taken
from the text makes the room smaller, an alias expanded never makes it larger, and what is queued ahead of all other
text makes it larger by less than the text can be long.
-/
namespace GameHost

theorem Text.length_le_size (text : Text) : text.length ≤ Text.size text := by
  induction text with
  | nil => exact Nat.zero_le _
  | cons c rest ih =>
    have wide : 0 < c.utf8Size := Char.utf8Size_pos c
    rw [List.length_cons, Text.size_cons]
    omega

theorem Text.size_le_of_suffix {text whole : Text} (suffix : text <:+ whole) : Text.size text ≤ Text.size whole := by
  obtain ⟨front, rfl⟩ := suffix
  rw [size_append]
  exact Nat.le_add_left _ _

namespace Shell

variable {α : Type}

/-- How far text can still go: the characters that wait, and as many more for every alias that can still be expanded
as can be put in its place. -/
def room (s : Shell α) : Nat := s.pending.length + pendingLimit * (Host.expansionLimit - 1 - s.expansions)

theorem length_splitLine (quoted : Bool) (text : Text) : (splitLine quoted text).2.length ≤ text.length - 1 := by
  induction text generalizing quoted with
  | nil => exact Nat.le_refl 0
  | cons c rest ih =>
    unfold splitLine
    split
    · exact Nat.le_refl _
    · have later := ih (quoted != (c == '"'))
      simp only [List.length_cons]
      omega

theorem room_nextLine {s t : Shell α} {line : Text} (taken : s.nextLine = (some line, t)) : t.room + 1 ≤ s.room := by
  unfold nextLine at taken
  split at taken
  · cases taken
  · rename_i some
    cases taken
    have shorter := length_splitLine false s.pending
    have nonempty : 0 < s.pending.length := by
      rw [List.length_pos_iff]
      simpa using some
    unfold room
    dsimp only
    omega

@[simp] theorem commands_nextLine (s : Shell α) : s.nextLine.2.commands = s.commands := by
  unfold nextLine
  split <;> rfl

/-- The text that waits, and how many aliases were expanded. -/
def waiting (s : Shell α) : Text × Nat := (s.pending, s.expansions)

theorem room_of_waiting {s t : Shell α} (same : t.waiting = s.waiting) : t.room = s.room :=
  congrArg (fun (pending, expansions) => pending.length + pendingLimit * (Host.expansionLimit - 1 - expansions)) same

theorem waiting_of_standing {s t : Shell α} (same : t.standing = s.standing) : t.waiting = s.waiting :=
  congrArg Prod.snd same

theorem length_of_hasRoom {s : Shell α} {text : Text} (fits : s.hasRoom text = true) :
    (text ++ s.pending).length < pendingLimit := by
  have first := Text.length_le_size s.pending
  have second := Text.length_le_size text
  simp only [hasRoom, decide_eq_true_eq] at fits
  rw [List.length_append]
  omega

theorem room_insertText (text : Text) (s : Shell α) : (s.insertText text).room < s.room + pendingLimit := by
  unfold insertText
  split
  · rename_i fits
    have short := length_of_hasRoom fits
    unfold room
    dsimp only
    omega
  · exact Nat.lt_add_of_pos_right (by decide)

/-- A text as lines of its own: with a newline at its end. -/
def ended (value : Text) : Text := if value.getLast? == some '\n' then value else value ++ ['\n']

theorem waiting_insertText (text : Text) (s : Shell α) :
    (s.insertText text).waiting = (if s.hasRoom text then text ++ s.pending else s.pending, s.expansions) := by
  unfold insertText
  split <;> rfl

/-- An alias is counted, and its lines are put ahead of all other text if it is not one too many and they fit. -/
theorem waiting_expand (value : Text) (s : Shell α) : (Host.expand value s).waiting =
    (if s.expansions + 1 < Host.expansionLimit ∧ s.hasRoom (ended value) then ended value ++ s.pending else s.pending,
      s.expansions + 1) := by
  unfold Host.expand
  dsimp only
  by_cases late : Host.expansionLimit ≤ s.expansions + 1
  · rw [if_pos late, if_neg (by omega)]
    rfl
  · rw [if_neg late]
    refine (waiting_insertText (ended value) _).trans ?_
    simp only [Nat.not_le.1 late, true_and]
    rfl

theorem expand_of_room {value : Text} {s : Shell α} (early : s.expansions + 1 < Host.expansionLimit)
    (room : s.hasRoom (ended value) = true) : Host.expand value s =
      { s with expansions := s.expansions + 1, pending := ended value ++ s.pending } := by
  unfold Host.expand
  dsimp only
  rw [if_neg (Nat.not_le.2 early)]
  exact if_pos room

theorem room_expand (value : Text) (s : Shell α) : (Host.expand value s).room ≤ s.room := by
  let counted : Shell α := { s with expansions := s.expansions + 1 }
  unfold Host.expand
  dsimp only
  split
  · change counted.room ≤ s.room
    exact Nat.add_le_add_left (Nat.mul_le_mul_left _ (by dsimp only [counted]; omega)) _
  · rename_i early
    have next : Host.expansionLimit - 1 - s.expansions = Host.expansionLimit - 1 - (s.expansions + 1) + 1 := by
      omega
    have whole : s.room = counted.room + pendingLimit := by
      rw [room, next, Nat.mul_succ, ← Nat.add_assoc, room]
    rw [whole]
    exact Nat.le_of_lt (room_insertText _ counted)

end Shell

namespace Host

variable {α ω : Type} [Program α ω]

/-- What is done with a line that has been taken apart. -/
def runMeaning (run : Text → Source → Act (Host α ω) Unit) : Meaning α → Act (Host α ω) Unit
  | .nothing => pure ()
  | .command action => runAction run action
  | .alias value => onShell (expand value)
  | .variable => onShell fun s => (s.useVariable (s.line.word 0) s.line.count (s.line.word 1)).2
  | .unknown => runUnknown

theorem runLineWithin_succ (depth : Nat) (text : Text) (source : Source) (h : Host α ω) :
    runLineWithin (depth + 1) text source h = runMeaning (runLineWithin depth) (meaning (h.shell.accept text source))
      { h with shell := h.shell.accept text source } := by
  have took : (onShell (Shell.accept text source) : Act (Host α ω) Unit) h =
      .ok () { h with shell := h.shell.accept text source } := rfl
  rw [runLineWithin, Act.bind_of_ok took, Act.bind_get]
  cases meaning (h.shell.accept text source) <;> rfl

theorem runLine_eq (text : Text) (source : Source) (h : Host α ω) :
    runLine text source h = runMeaning (runLineWithin text.length) (meaning (h.shell.accept text source))
      { h with shell := h.shell.accept text source } := runLineWithin_succ _ text source h

/-- One pass over the text that waits. The result tells whether another follows. -/
def round : Act (Host α ω) Bool := do
  match ← askShell Shell.nextLine with
  | none => return false
  | some line =>
    if (Text.trim line).isEmpty then return true
    else
      runLine line .player
      if (← get).shell.paused then
        onShell fun s => { s with paused := false }
        return false
      else return true

theorem runPending_succ (budget : Nat) :
    (runPending (budget + 1) : Act (Host α ω) Unit) = round >>= fun more => if more then runPending budget else pure () := by
  simp only [runPending, round, bind_assoc]
  congr 1
  funext line
  cases line with
  | none => simp
  | some line =>
    dsimp only
    split
    · simp
    · simp only [bind_assoc]
      congr 1
      funext _
      congr 1
      funext h
      split <;> simp

theorem runPending_round (budget : Nat) (h : Host α ω) : runPending (budget + 1) h =
    match round h with
    | .ok true m => runPending budget m
    | .ok false m => .ok () m
    | .error fault m => .error fault m := by
  rw [runPending_succ]
  cases ran : round h with
  | ok more m =>
    rw [Act.bind_of_ok ran]
    cases more <;> rfl
  | error fault m => rw [Act.bind_of_error ran]

theorem final_runPending_zero (h : Host α ω) : Act.final (runPending 0 h) = h := by
  rw [runPending, Act.bind_get]
  split <;> rfl

theorem final_runPending_one (h : Host α ω) : Act.final (runPending 1 h) = Act.final (round h) := by
  rw [runPending_round]
  cases round h with
  | error fault m => rfl
  | ok more m =>
    cases more with
    | false => rfl
    | true => exact final_runPending_zero m

end Host

end GameHost
