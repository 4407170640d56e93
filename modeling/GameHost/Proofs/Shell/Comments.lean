import GameHost.Proofs.Shell.Lexemes
import GameHost.Proofs.Shell.Splitting

/-!
Comments in a text that is cut into lines. The cut knows of quotes but not of comments, and so what follows a separator
in a comment is a line of its own, which the comment is no part of.
-/
namespace GameHost

namespace Token

/-- Whether no quote is left open that a word begins with; at most `fuel` words are looked at. -/
def closesWithin : Nat → Text → Bool
  | 0, _ => true
  | fuel + 1, text =>
    match skip false text with
    | [] => true
    | c :: rest =>
      if c == '"' then
        match rest.dropWhile (· != '"') with
        | [] => false
        | _ :: after => closesWithin fuel after
      else if isPunctuation c then closesWithin fuel rest
      else closesWithin fuel ((c :: rest).dropWhile isWordChar)

def closes (text : Text) : Bool := closesWithin (text.length + 1) text

theorem clip_ne_nil {word : Text} (some : word ≠ []) : clip word ≠ [] := by
  unfold clip
  split
  · exact some
  · cases word with
    | nil => exact absurd rfl some
    | cons c rest =>
      have small := c.utf8Size_le_four
      rw [within, if_pos (Nat.le_trans small (by decide))]
      exact List.cons_ne_nil _ _

/-- What is skipped before a word is skipped with anything behind the word, unless it makes a comment of a last slash. -/
theorem skip_append_apart {open' : Bool} {text more behind : Text} {c : Char} (found : skip open' text = c :: more)
    (apart : c = '/' → more = [] → behind.head? ≠ some '/') : skip open' (text ++ behind) = c :: (more ++ behind) := by
  induction text generalizing open' with
  | nil => cases open' <;> cases found
  | cons d text ih =>
    cases open' with
    | true => exact ih found
    | false =>
      unfold skip at found
      rw [List.cons_append, skip]
      split at found
      · rename_i gap
        rw [if_pos gap]
        exact ih found
      · rename_i gap
        rw [if_neg gap]
        split at found
        · rename_i comment
          have still : (d == '/' && (text ++ behind).head? == some '/') = true := by
            cases text with
            | nil => simp at comment
            | cons e text => exact comment
          rw [if_pos still]
          exact ih found
        · rename_i plain
          cases found
          have still : ¬(c == '/' && (more ++ behind).head? == some '/') = true := by
            cases more with
            | nil => simpa using fun same => apart same rfl
            | cons e more => exact plain
          rw [if_neg still]

theorem skip_append {open' : Bool} {text more : Text} {c : Char} (found : skip open' text = c :: more)
    (apart : c = '/' → more ≠ []) (behind : Text) : skip open' (text ++ behind) = c :: (more ++ behind) :=
  skip_append_apart found fun slash none => absurd none (apart slash)

theorem words_ne_nil_iff (text : Text) : (Line.ofText text).words ≠ [] ↔ (scan text).word ≠ [] := by
  obtain ⟨more, first⟩ : ∃ more, scans text = scan text :: more := by
    unfold scans scansWithin
    dsimp only
    split <;> exact ⟨_, rfl⟩
  have words : (Line.ofText text).words =
      (((scans text).map Scan.word).takeWhile (! ·.isEmpty)).take Line.wordLimit := rfl
  rw [words, first, List.map_cons, List.takeWhile_cons]
  cases none : (scan text).word with
  | nil => simp
  | cons c word => simp [Line.wordLimit]

/-- A text that ends so that slashes behind it begin a comment. -/
def Spaced (text : Text) : Prop := ∀ c ∈ text.getLast?, Text.isBlank c = true ∨ isGap c = true

instance (text : Text) : Decidable (Spaced text) :=
  decidable_of_iff (text.getLast?.all fun c => Text.isBlank c || isGap c) (by simp [Spaced, Option.all_eq_true])

theorem Spaced.apart {text before more : Text} {c : Char} (spaced : Spaced text) (split : text = before ++ c :: more)
    (slash : c = '/') : more ≠ [] := by
  rintro rfl
  subst slash split
  exact absurd (spaced '/' (by simp)) (by decide)

/-- A word before slashes stays a word, though perhaps a longer one. -/
theorem scan_append_ne_nil {text : Text} (spaced : Spaced text) (some : (scan text).word ≠ []) (behind : Text) :
    (scan (text ++ behind)).word ≠ [] := by
  rcases skip_cases text with ⟨none, _⟩ | ⟨before, c, rest, found, split, _, gap, _⟩
  · unfold scan at some
    rw [none] at some
    exact absurd rfl some
  · have longer := skip_append found (spaced.apart split) behind
    unfold scan at some ⊢
    rw [found] at some
    rw [longer]
    dsimp only at some ⊢
    split
    · rename_i quote
      rw [if_pos quote] at some
      cases rest with
      | nil => exact absurd rfl some
      | cons d rest =>
        refine clip_ne_nil ?_
        by_cases close : d = '"'
        · exact absurd (by simp [close, clip, lengthLimit]) some
        · simp [close]
    · split
      · exact List.cons_ne_nil _ _
      · rename_i punctuation
        have wordChar : isWordChar c = true := by simp [isWordChar, gap, punctuation]
        refine clip_ne_nil ?_
        rw [List.takeWhile_cons_of_pos wordChar]
        exact List.cons_ne_nil _ _

theorem skip_true_of_straight {text : Text} (straight : '\n' ∉ text) : skip true text = [] := by
  obtain ⟨body, _, ⟨_, none⟩ | ⟨rest, rfl, _⟩⟩ := skip_comment text
  · exact none
  · exact absurd (by simp) straight

/-- Where nothing is left of a line, nothing is left with a comment behind it. -/
theorem skip_comment_append {open' : Bool} {text comment : Text} (none : skip open' text = []) (straight : '\n' ∉ text)
    (line : '\n' ∉ comment) : skip open' (text ++ '/' :: '/' :: comment) = [] := by
  have dropped : skip true ('/' :: '/' :: comment) = [] := skip_true_of_straight (by simp [line])
  induction text generalizing open' with
  | nil =>
    cases open' with
    | true => exact dropped
    | false =>
      rw [List.nil_append, skip, if_neg (by decide), if_pos (by simp)]
      exact skip_true_of_straight (by simp [line])
  | cons c text ih =>
    have other : (c != '\n') = true := bne_iff_ne.2 fun same => straight (by simp [same])
    have straight : '\n' ∉ text := fun member => straight (List.mem_cons_of_mem c member)
    cases open' with
    | true =>
      rw [skip, other] at none
      rw [List.cons_append, skip, other]
      exact ih none straight
    | false =>
      rw [skip] at none
      rw [List.cons_append, skip]
      split at none
      · rename_i gap
        rw [if_pos gap]
        exact ih none straight
      · rename_i gap
        rw [if_neg gap]
        split at none
        · rename_i slashes
          have still : (c == '/' && (text ++ '/' :: '/' :: comment).head? == some '/') = true := by
            cases text with
            | nil => simp at slashes
            | cons d text => exact slashes
          rw [if_pos still]
          exact ih none straight
        · cases none

theorem span_append {text after : Text} {p : Char → Bool} {c : Char} (found : text.dropWhile p = c :: after)
    (behind : Text) : (text ++ behind).takeWhile p = text.takeWhile p ∧
      (text ++ behind).dropWhile p = c :: (after ++ behind) := by
  have stops : ¬p c = true := by
    have first := List.head?_dropWhile_not p text
    rw [found] at first
    simpa using first
  have split : text = text.takeWhile p ++ c :: after := by rw [← found, List.takeWhile_append_dropWhile]
  have all : ∀ d ∈ text.takeWhile p, p d = true := List.all_eq_true.1 List.all_takeWhile
  generalize text.takeWhile p = first at split all
  rw [split, List.append_assoc, List.takeWhile_append_of_pos all, List.dropWhile_append_of_pos all, List.cons_append,
    List.takeWhile_cons_of_neg stops, List.dropWhile_cons_of_neg stops, List.append_nil]
  exact ⟨rfl, rfl⟩

section

variable {text rest behind : Text} {c : Char}

/-- The word is the same with something behind the text, and the rest goes on with that. -/
def Onward (text behind word after : Text) : Prop :=
  scan text = ⟨word, some after⟩ ∧ scan (text ++ behind) = ⟨word, some (after ++ behind)⟩

theorem left_of_ne_nil {after : Text} (more : after ≠ []) : left after = some after := if_neg (by simpa using more)

theorem onward_quoted (found : skip false text = c :: rest) (longer : skip false (text ++ behind) = c :: (rest ++ behind))
    (quote : (c == '"') = true) {d : Char} {after : Text} (dropped : rest.dropWhile (· != '"') = d :: after)
    (more : after ≠ []) : Onward text behind (clip (rest.takeWhile (· != '"'))) after := by
  obtain ⟨taken, kept⟩ := span_append dropped behind
  constructor
  · rw [scan, found]
    dsimp only
    rw [if_pos quote, dropped, List.drop_one, List.tail_cons, left_of_ne_nil more]
  · rw [scan, longer]
    dsimp only
    rw [if_pos quote, taken, kept, List.drop_one, List.tail_cons, left_of_ne_nil (by simp [more])]

theorem onward_punctuation (found : skip false text = c :: rest)
    (longer : skip false (text ++ behind) = c :: (rest ++ behind)) (quote : ¬(c == '"') = true)
    (punctuation : isPunctuation c = true) (more : rest ≠ []) : Onward text behind [c] rest := by
  constructor
  · rw [scan, found]
    dsimp only
    rw [if_neg quote, if_pos punctuation, left_of_ne_nil more]
  · rw [scan, longer]
    dsimp only
    rw [if_neg quote, if_pos punctuation, left_of_ne_nil (by simp [more])]

theorem onward_bare (found : skip false text = c :: rest) (longer : skip false (text ++ behind) = c :: (rest ++ behind))
    (quote : ¬(c == '"') = true) (punctuation : ¬isPunctuation c = true) {d : Char} {after : Text}
    (dropped : (c :: rest).dropWhile isWordChar = d :: after) :
    Onward text behind (clip ((c :: rest).takeWhile isWordChar)) (d :: after) := by
  obtain ⟨taken, kept⟩ := span_append dropped behind
  rw [List.cons_append] at taken kept
  constructor
  · rw [scan, found]
    dsimp only
    rw [if_neg quote, if_neg punctuation, dropped]
    rfl
  · rw [scan, longer]
    dsimp only
    rw [if_neg quote, if_neg punctuation, taken, kept]
    rfl

end

/-- A line that does not end with a gap is not used up with a word. -/
theorem ne_nil_of_ending {text before after : Text} {c : Char} (ending : ∀ c ∈ text.getLast?, isGap c = true)
    (split : text = before ++ c :: after) (solid : isGap c = false) : after ≠ [] := by
  rintro rfl
  have last := ending c (by rw [split]; simp)
  rw [last] at solid
  cases solid

/-- The first word of a line is the same with a comment behind the line, and so is what follows it but for the comment. -/
theorem scan_commented {text comment : Text} (ending : ∀ c ∈ text.getLast?, isGap c = true) (straight : '\n' ∉ text)
    (line : '\n' ∉ comment) {fuel : Nat} (closed : closesWithin (fuel + 1) text = true) :
    (scan text).word = [] ∧ (scan (text ++ '/' :: '/' :: comment)).word = [] ∨
    ∃ word after, Onward text ('/' :: '/' :: comment) word after ∧ after <:+ text ∧ after.length < text.length ∧
      closesWithin fuel after = true := by
  rcases skip_cases text with ⟨none, _⟩ | ⟨before, c, rest, found, split, _, gap, _⟩
  · refine .inl ⟨?_, ?_⟩
    · rw [scan, none]
    · rw [scan, skip_comment_append none straight line]
  have longer := skip_append found (fun slash => ne_nil_of_ending ending split (by rw [slash]; decide)) ('/' :: '/' :: comment)
  have part : c :: rest <:+ text := ⟨before, split.symm⟩
  have within {after : Text} (suffix : after <:+ rest) : after <:+ text ∧ after.length < text.length :=
    ⟨suffix.trans ((List.suffix_cons c rest).trans part),
      Nat.lt_of_lt_of_le (Nat.lt_succ_of_le suffix.length_le) part.length_le⟩
  rw [closesWithin, found] at closed
  dsimp only at closed
  refine .inr ?_
  by_cases quote : (c == '"') = true
  · rw [if_pos quote] at closed
    cases dropped : rest.dropWhile (· != '"') with
    | nil =>
      rw [dropped] at closed
      cases closed
    | cons d after =>
      rw [dropped] at closed
      have closing : d = '"' := by
        have first := List.head?_dropWhile_not (· != '"') rest
        rw [dropped] at first
        simpa using first
      have inner : rest = rest.takeWhile (· != '"') ++ d :: after := by rw [← dropped, List.takeWhile_append_dropWhile]
      have whole : text = (before ++ c :: rest.takeWhile (· != '"')) ++ d :: after := by
        rw [List.append_assoc, List.cons_append, ← inner]
        exact split
      have more := ne_nil_of_ending ending whole (by rw [closing]; decide)
      obtain ⟨suffix, less⟩ := within ⟨rest.takeWhile (· != '"') ++ [d], by rw [List.append_assoc]; exact inner.symm⟩
      exact ⟨_, after, onward_quoted found longer quote dropped more, suffix, less, closed⟩
  rw [if_neg quote] at closed
  by_cases punctuation : isPunctuation c = true
  · rw [if_pos punctuation] at closed
    obtain ⟨suffix, less⟩ := within (List.suffix_refl rest)
    exact ⟨_, rest, onward_punctuation found longer quote punctuation (ne_nil_of_ending ending split gap), suffix, less,
      closed⟩
  · rw [if_neg punctuation] at closed
    have wordChar : isWordChar c = true := by simp [isWordChar, gap, punctuation]
    cases dropped : (c :: rest).dropWhile isWordChar with
    | nil =>
      have last := ending ((c :: rest).getLast (List.cons_ne_nil c rest)) (by rw [split]; simp [List.getLast?_eq_some_getLast])
      have all := List.dropWhile_eq_nil_iff.1 dropped _ (List.getLast_mem (List.cons_ne_nil c rest))
      simp [isWordChar, last] at all
    | cons d after =>
      rw [dropped] at closed
      have inner : rest.dropWhile isWordChar = d :: after := by rw [← dropped, List.dropWhile_cons_of_pos wordChar]
      obtain ⟨suffix, less⟩ := within (inner ▸ List.dropWhile_suffix isWordChar)
      exact ⟨_, d :: after, onward_bare found longer quote punctuation dropped, suffix, less, closed⟩

theorem getLast?_of_suffix {after text : Text} (suffix : after <:+ text) {c : Char} (last : c ∈ after.getLast?) :
    c ∈ text.getLast? := by
  obtain ⟨before, rfl⟩ := suffix
  rw [List.getLast?_append, Option.mem_def.1 last]
  rfl

theorem found_commented {text comment : Text} (ending : ∀ c ∈ text.getLast?, isGap c = true) (straight : '\n' ∉ text)
    (line : '\n' ∉ comment) {looks fuel more : Nat} (closed : closesWithin (looks + 1) text = true)
    (looked : text.length ≤ looks) (enough : text.length ≤ fuel)
    (too : (text ++ '/' :: '/' :: comment).length ≤ more) :
    ((scansWithin (more + 1) (text ++ '/' :: '/' :: comment)).map Scan.word).takeWhile (! ·.isEmpty) =
      ((scansWithin (fuel + 1) text).map Scan.word).takeWhile (! ·.isEmpty) := by
  have first (fuel : Nat) (text : Text) : ∃ later, scansWithin (fuel + 1) text = scan text :: later := by
    unfold scansWithin
    dsimp only
    split <;> exact ⟨_, rfl⟩
  -- what is left of the line is shorter with every word
  induction length : text.length using Nat.strong_induction_on generalizing text looks fuel more with
  | _ size ih =>
    rcases scan_commented ending straight line closed with ⟨none, still⟩ | ⟨word, after, onward, suffix, less, closed⟩
    · obtain ⟨_, one⟩ := first fuel text
      obtain ⟨_, other⟩ := first more (text ++ '/' :: '/' :: comment)
      rw [one, other, List.map_cons, List.map_cons, none, still]
      rfl
    · rw [List.length_append] at too
      obtain ⟨looks, rfl⟩ : ∃ fewer, looks = fewer + 1 := ⟨looks - 1, by omega⟩
      obtain ⟨fuel, rfl⟩ : ∃ fewer, fuel = fewer + 1 := ⟨fuel - 1, by omega⟩
      obtain ⟨more, rfl⟩ : ∃ fewer, more = fewer + 1 := ⟨more - 1, by omega⟩
      have later := ih after.length (length ▸ less) (fun c last => ending c (getLast?_of_suffix suffix last))
        (fun member => straight (suffix.subset member)) closed (by omega)
        (show after.length ≤ fuel by omega)
        (show (after ++ '/' :: '/' :: comment).length ≤ more by rw [List.length_append]; omega) rfl
      rw [scansWithin_some onward.1, scansWithin_some onward.2, List.map_cons, List.map_cons, List.takeWhile_cons,
        List.takeWhile_cons, later]

/-- The words of a line are the same with a comment behind the line. -/
theorem words_commented {text comment : Text} (ending : ∀ c ∈ text.getLast?, isGap c = true) (straight : '\n' ∉ text)
    (line : '\n' ∉ comment) (closed : closes text = true) :
    (Line.ofText (text ++ '/' :: '/' :: comment)).words = (Line.ofText text).words :=
  congrArg (List.take Line.wordLimit)
    (found_commented ending straight line closed (Nat.le_refl _) (Nat.le_refl _) (Nat.le_refl _))

end Token

namespace Shell

/-- The words that a line is run with, if it is run and has any. -/
def called (line : Text) : List (List Text) :=
  if (Text.trim line).isEmpty || (Line.ofText line).words.isEmpty then [] else [(Line.ofText line).words]

/-- What the lines of a text are run with. -/
def calledBy (text : Text) : List (List Text) := (lines text).flatMap called

/-- Text in which every line has what ends it. -/
inductive Complete : Text → Prop where
  | none : Complete []
  | line {line rest : Text} {c : Char} (unbroken : whole false line = true)
      (ended : endsLine (quotedAfter false line) c = true) (more : Complete rest) : Complete (line ++ c :: rest)

/-- The line that a text leaves open. -/
def openLine (text : Text) : Text := (lines (text ++ ['\n'])).getLastD []

/-- A comment behind a text changes nothing of what the open line is run with, and nothing is run of the lines that the
comment is cut into. -/
def Skipped (text comment : Text) : Prop :=
  called (openLine text ++ '/' :: '/' :: (splitLine false (comment ++ ['\n'])).1) = called (openLine text) ∧
    calledBy (splitLine false (comment ++ ['\n'])).2 = []

instance (text comment : Text) : Decidable (Skipped text comment) := inferInstanceAs (Decidable (_ ∧ _))

theorem splitLine_append {quoted : Bool} {line : Text} (unbroken : whole quoted line = true) (rest : Text) :
    splitLine quoted (line ++ rest) =
      (line ++ (splitLine (quotedAfter quoted line) rest).1, (splitLine (quotedAfter quoted line) rest).2) := by
  induction line generalizing quoted with
  | nil => rfl
  | cons c line ih =>
    simp only [whole, Bool.and_eq_true, Bool.not_eq_true'] at unbroken
    simp [splitLine, quotedAfter, unbroken.1, ih unbroken.2]

theorem begins_ended {line : Text} {c : Char} (unbroken : whole false line = true)
    (ended : endsLine (quotedAfter false line) c = true) (rest : Text) : Begins (line ++ c :: rest) line rest :=
  ⟨by simp, splitLine_ends unbroken ended rest⟩

namespace Complete

theorem append {first later : Text} (complete : Complete first) (more : Complete later) : Complete (first ++ later) := by
  induction complete with
  | none => exact more
  | line unbroken ended _ ih =>
    rw [List.append_assoc, List.cons_append]
    exact .line unbroken ended ih

/-- Complete text that is not used up begins with a line of its own, whatever is behind it. -/
theorem begins {text : Text} (complete : Complete text) (some : text ≠ []) :
    ∃ line rest, Complete rest ∧ ∀ behind, Begins (text ++ behind) line (rest ++ behind) := by
  cases complete with
  | none => exact absurd rfl some
  | @line line rest c unbroken ended more =>
    refine ⟨line, rest, more, fun behind => ?_⟩
    rw [List.append_assoc]
    exact begins_ended unbroken ended (rest ++ behind)

theorem lines_append {text : Text} (complete : Complete text) (behind : Text) :
    lines (text ++ behind) = lines text ++ lines behind := by
  induction complete with
  | none => rfl
  | line unbroken ended _ ih =>
    rw [List.append_assoc, List.cons_append, (begins_ended unbroken ended _).lines_eq,
      (begins_ended unbroken ended _).lines_eq, ih, List.cons_append]

/-- Without a newline, every line ended where no quote was open. -/
theorem even {text : Text} (complete : Complete text) (straight : '\n' ∉ text) : quotedAfter false text = false := by
  induction complete with
  | none => rfl
  | @line line rest c unbroken ended _ ih =>
    have other : c ≠ '\n' := fun same => straight (by simp [same])
    have closed : quotedAfter false line = false ∧ c = ';' := by simpa [endsLine, other, and_comm] using ended
    rw [quotedAfter_append, closed.1, closed.2]
    exact ih fun member => straight (by simp [member])

end Complete

theorem exists_complete (text : Text) :
    ∃ before line, text = before ++ line ∧ Complete before ∧ whole false line = true := by
  -- every line takes a character at least off the text
  induction length : text.length using Nat.strong_induction_on generalizing text with
  | _ size ih =>
    obtain ⟨unbroken, all | ⟨c, ended, split⟩⟩ := splitLine_cases false text
    · exact ⟨[], text, rfl, .none, by rw [all] at unbroken; exact unbroken⟩
    · have less : (splitLine false text).2.length < size := by
        have all := congrArg List.length split
        rw [List.length_append, List.length_cons] at all
        omega
      obtain ⟨before, line, rest, complete, last⟩ := ih _ less _ rfl
      refine ⟨(splitLine false text).1 ++ c :: before, line, ?_, .line unbroken ended complete, last⟩
      rw [List.append_assoc, List.cons_append, ← rest]
      exact split

theorem complete_newline (text : Text) : Complete (text ++ ['\n']) := by
  obtain ⟨before, line, rfl, complete, last⟩ := exists_complete text
  rw [List.append_assoc]
  exact complete.append (.line last (by simp [endsLine]) .none)

theorem complete_ended (value : Text) : Complete (ended value) := by
  unfold ended
  split
  · rename_i newline
    obtain ⟨text, rfl⟩ := List.getLast?_eq_some_iff.1 (eq_of_beq newline)
    exact complete_newline text
  · exact complete_newline value

theorem lines_line {line : Text} (unbroken : whole false line = true) : lines (line ++ ['\n']) = [line] :=
  (begins_ended unbroken (by simp [endsLine]) []).lines_eq

/-- A text is its complete lines and the one that it leaves open. -/
theorem exists_openLine (text : Text) : ∃ before, text = before ++ openLine text ∧ Complete before ∧
    whole false (openLine text) = true := by
  obtain ⟨before, line, rfl, complete, last⟩ := exists_complete text
  have same : openLine (before ++ line) = line := by
    rw [openLine, List.append_assoc, complete.lines_append, lines_line last]
    simp
  rw [same]
  exact ⟨before, rfl, complete, last⟩

theorem called_of_words {line : Text} (visible : (Text.trim line).isEmpty = false) (some : (Line.ofText line).words ≠ []) :
    called line = [(Line.ofText line).words] := by
  have more : (Line.ofText line).words.isEmpty = false := by simpa using some
  rw [called, visible, more]
  rfl

theorem called_cases (line : Text) : called line = [] ∨ called line = [(Line.ofText line).words] ∧
    (Line.ofText line).words ≠ [] := by
  unfold called
  split
  · exact .inl rfl
  · rename_i run
    exact .inr ⟨rfl, fun none => run (by simp [none])⟩

theorem called_of_ne_nil {line : Text} (some : called line ≠ []) :
    called line = [(Line.ofText line).words] ∧ (Text.trim line).isEmpty = false := by
  refine ⟨(called_cases line).resolve_left some |>.1, Bool.eq_false_iff.2 fun blank => some ?_⟩
  rw [called, blank]
  rfl

theorem trim_commented (text comment : Text) : (Text.trim (text ++ '/' :: '/' :: comment)).isEmpty = false :=
  Text.trim_visible (c := '/') (by simp) (by decide)

/-- What a line with words is run with may change with a comment behind the line, but it is still run. -/
theorem called_commented_ne_nil {text : Text} (spaced : Token.Spaced text) (some : called text ≠ []) (comment : Text) :
    called (text ++ '/' :: '/' :: comment) ≠ [] := by
  rcases called_cases text with none | ⟨_, words⟩
  · exact absurd none some
  · have longer := Token.scan_append_ne_nil spaced ((Token.words_ne_nil_iff text).1 words) ('/' :: '/' :: comment)
    rw [called_of_words (trim_commented text comment) ((Token.words_ne_nil_iff _).2 longer)]
    exact List.cons_ne_nil _ _

/-- A line without a word for the tokenizer is one that has only gaps. -/
theorem called_commented {text comment : Text} (ending : ∀ c ∈ text.getLast?, Token.isGap c = true)
    (straight : '\n' ∉ text) (line : '\n' ∉ comment) (closed : Token.closes text = true)
    (plain : ∀ c ∈ text, Text.isBlank c = true → Token.isGap c = true) :
    called (text ++ '/' :: '/' :: comment) = called text := by
  have words := Token.words_commented ending straight line closed
  cases visible : (Text.trim text).isEmpty with
  | false => rw [called, called, words, trim_commented, visible]
  | true =>
    have none : (Line.ofText text).words = [] := by
      by_contra some
      rcases Token.skip_cases text with ⟨empty, _⟩ | ⟨before, c, rest, _, split, _, solid, _⟩
      · exact (Token.words_ne_nil_iff text).1 some (by rw [Token.scan, empty])
      · have member : c ∈ text := by simp [split]
        cases blank : Text.isBlank c with
        | true =>
          rw [plain c member blank] at solid
          cases solid
        | false =>
          rw [Text.trim_visible member blank] at visible
          cases visible
    rw [called, called, words, none]
    simp

theorem calledBy_begins {text line rest : Text} (begins : Begins text line rest) :
    calledBy text = called line ++ calledBy rest := by
  rw [calledBy, begins.lines_eq]
  rfl

theorem calledBy_line {line : Text} (unbroken : whole false line = true) : calledBy (line ++ ['\n']) = called line := by
  rw [calledBy, lines_line unbroken]
  exact List.flatMap_singleton ..

theorem calledBy_append {text : Text} (complete : Complete text) (behind : Text) :
    calledBy (text ++ behind) = calledBy text ++ calledBy behind := by
  rw [calledBy, complete.lines_append, List.flatMap_append]
  rfl

/-- Where no quote is open, the first line of a comment is a part of the line that it is behind. -/
theorem begins_commented {text : Text} (even : Even (text.count '"')) (straight : '\n' ∉ text) (comment : Text) :
    Begins (openLine text ++ '/' :: '/' :: (comment ++ ['\n']))
      (openLine text ++ '/' :: '/' :: (splitLine false (comment ++ ['\n'])).1) (splitLine false (comment ++ ['\n'])).2 := by
  obtain ⟨before, split, complete, unbroken⟩ := exists_openLine text
  have closed : quotedAfter false (openLine text) = false := by
    have all : quotedAfter false text = false := by simp [quotedAfter_eq, even]
    have first := complete.even fun member => straight (by rw [split]; exact List.mem_append_left _ member)
    rw [split, quotedAfter_append, first] at all
    exact all
  refine ⟨by simp, ?_⟩
  rw [splitLine_append unbroken, closed]
  rfl

/-- What the lines of a text with a comment behind it are run with: those before the one that the comment is behind, this
one, and those that the comment is cut into. -/
theorem calledBy_commented {text : Text} (even : Even (text.count '"')) (straight : '\n' ∉ text) (comment : Text) :
    ∃ before, calledBy (text ++ ['\n']) = before ++ called (openLine text) ∧
      calledBy (text ++ '/' :: '/' :: (comment ++ ['\n'])) =
        before ++ (called (openLine text ++ '/' :: '/' :: (splitLine false (comment ++ ['\n'])).1) ++
          calledBy (splitLine false (comment ++ ['\n'])).2) := by
  obtain ⟨before, split, complete, unbroken⟩ := exists_openLine text
  refine ⟨calledBy before, ?_, ?_⟩
  · rw [← calledBy_line unbroken, ← calledBy_append complete, ← List.append_assoc, ← split]
  · rw [← calledBy_begins (begins_commented even straight comment), ← calledBy_append complete, ← List.append_assoc, ← split]

theorem spaced_openLine {text : Text} (spaced : Token.Spaced text) : Token.Spaced (openLine text) := by
  obtain ⟨before, split, _, _⟩ := exists_openLine text
  exact fun c last => spaced c (Token.getLast?_of_suffix ⟨before, split.symm⟩ last)

/-- A comment is skipped exactly if the text is run with the same words without it. -/
theorem calledBy_commented_iff {text comment : Text} (spaced : Token.Spaced text) (even : Even (text.count '"'))
    (straight : '\n' ∉ text) :
    calledBy (text ++ '/' :: '/' :: (comment ++ ['\n'])) = calledBy (text ++ ['\n']) ↔ Skipped text comment := by
  obtain ⟨before, plain, commented⟩ := calledBy_commented even straight comment
  rw [plain, commented, List.append_cancel_left_eq, Skipped]
  have still (some : called (openLine text) ≠ []) :=
    called_commented_ne_nil (spaced_openLine spaced) some (splitLine false (comment ++ ['\n'])).1
  constructor
  · intro same
    rcases called_cases (openLine text) with none | ⟨one, _⟩
    · rw [none] at same ⊢
      exact List.append_eq_nil_iff.1 same
    · have some := still (by rw [one]; exact List.cons_ne_nil _ _)
      rcases called_cases (openLine text ++ '/' :: '/' :: (splitLine false (comment ++ ['\n'])).1) with none | ⟨other, _⟩
      · exact absurd none some
      · rw [one, other, List.singleton_append, List.cons.injEq] at same
        exact ⟨by rw [one, other, same.1], same.2⟩
  · rintro ⟨same, none⟩
    rw [same, none, List.append_nil]

/-- Behind a line whose quotes are closed and whose blanks are gaps, a comment is skipped exactly if nothing is run of what
follows the first separator in it. -/
theorem skipped_iff {text comment : Text} (ending : ∀ c ∈ text.getLast?, Token.isGap c = true) (straight : '\n' ∉ text)
    (closed : Token.closes (openLine text) = true)
    (plain : ∀ c ∈ openLine text, Text.isBlank c = true → Token.isGap c = true) :
    Skipped text comment ↔ calledBy (splitLine false (comment ++ ['\n'])).2 = [] := by
  obtain ⟨before, split, _, _⟩ := exists_openLine text
  have part : openLine text <:+ text := ⟨before, split.symm⟩
  have inner : '\n' ∉ (splitLine false (comment ++ ['\n'])).1 := by
    have unbroken := (splitLine_cases false (comment ++ ['\n'])).1
    intro member
    obtain ⟨first, rest, apart⟩ := List.append_of_mem member
    have ends := whole_iff.1 unbroken first '\n' rest apart
    simp [endsLine] at ends
  have same := called_commented (fun c last => ending c (Token.getLast?_of_suffix part last))
    (fun member => straight (part.subset member)) inner closed plain
  rw [Skipped, same]
  exact and_iff_right rfl

end Shell

end GameHost
