import GameHost.Glob
import GameHost.Proofs.Client.Move
import Mathlib.Data.List.Infix

/-!
What the patterns of the listing commands describe. The matcher never goes back to an earlier `*`, and takes a `*` of the
text for that byte alone where a `*` of the pattern comes to it. On texts without a `*` it finds out exactly what the
pattern describes; on every text it finds out what the pattern describes when it is read that way.
-/
namespace GameHost.Glob

/-- What a pattern describes: `*` stands for any bytes, `?` for any byte, and another byte for itself in either case. -/
inductive Describes : Bytes → Bytes → Prop where
  | done : Describes [] []
  | stretch {pattern rest : Bytes} (skipped : Bytes) (more : Describes pattern rest) :
      Describes (star :: pattern) (skipped ++ rest)
  | one {pattern rest : Bytes} (b : UInt8) (more : Describes pattern rest) : Describes (any :: pattern) (b :: rest)
  | same {p b : UInt8} {pattern rest : Bytes} (plain : p ≠ star ∧ p ≠ any) (alike : lower p = lower b)
      (more : Describes pattern rest) : Describes (p :: pattern) (b :: rest)

/-- What a pattern is taken for: a `*` of it that comes to a `*` of the text stands for that byte alone. -/
inductive Taken : Bytes → Bytes → Prop where
  | done : Taken [] []
  | starred {pattern rest : Bytes} (more : Taken pattern rest) : Taken (star :: pattern) (star :: rest)
  | stretch {pattern rest skipped : Bytes} (other : (skipped ++ rest).head? ≠ some star) (more : Taken pattern rest) :
      Taken (star :: pattern) (skipped ++ rest)
  | one {pattern rest : Bytes} (b : UInt8) (more : Taken pattern rest) : Taken (any :: pattern) (b :: rest)
  | same {p b : UInt8} {pattern rest : Bytes} (plain : p ≠ star ∧ p ≠ any) (alike : lower p = lower b)
      (more : Taken pattern rest) : Taken (p :: pattern) (b :: rest)

/-- The pattern is taken for some end of the text. -/
def TakenLater (pattern text : Bytes) : Prop := ∃ rest, rest <:+ text ∧ Taken pattern rest

variable {pattern text rest : Bytes} {p b : UInt8}

theorem sameByte_star (alike : sameByte star b = true) : b = star := by
  have alike : star = lower b := eq_of_beq alike
  by_cases capital : (65 ≤ b && b ≤ 90) = true
  · rw [lower, if_pos capital, star] at alike
    have numbers := congrArg UInt8.toNat alike
    simp only [Bool.and_eq_true, decide_eq_true_eq, UInt8.le_iff_toNat_le] at capital
    simp only [UInt8.toNat_add, UInt8.reduceToNat] at capital numbers
    omega
  · rw [lower, if_neg capital] at alike
    exact alike.symm

theorem Taken.describes (taken : Taken pattern text) : Describes pattern text := by
  induction taken with
  | done => exact .done
  | starred _ ih => exact .stretch [star] ih
  | stretch _ _ ih => exact .stretch _ ih
  | one b _ ih => exact .one b ih
  | same plain alike _ ih => exact .same plain alike ih

theorem Describes.taken (describes : Describes pattern text) (clean : star ∉ text) : Taken pattern text := by
  induction describes with
  | done => exact .done
  | @stretch _ rest skipped _ ih =>
    have other : (skipped ++ rest).head? ≠ some star := by
      intro first
      exact clean (List.mem_of_mem_head? first)
    exact .stretch other (ih fun member => clean (List.mem_append_right skipped member))
  | one b _ ih => exact .one b (ih fun member => clean (List.mem_cons_of_mem b member))
  | same plain alike _ ih => exact .same plain alike (ih fun member => clean (List.mem_cons_of_mem _ member))

/-- Without its first byte a pattern is taken for an end of what it was taken for. -/
theorem Taken.later (taken : Taken (p :: pattern) text) : TakenLater pattern text := by
  cases taken with
  | starred more => exact ⟨_, List.suffix_cons _ _, more⟩
  | stretch _ more => exact ⟨_, List.suffix_append _ _, more⟩
  | one b more => exact ⟨_, List.suffix_cons _ _, more⟩
  | same _ _ more => exact ⟨_, List.suffix_cons _ _, more⟩

theorem taken_nil_iff : Taken pattern [] ↔ pattern.all (· == star) = true := by
  induction pattern with
  | nil => simp [Taken.done]
  | cons p pattern ih =>
    simp only [List.all_cons, Bool.and_eq_true, beq_iff_eq, ← ih]
    constructor
    · intro taken
      generalize empty : ([] : Bytes) = text at taken
      cases taken with
      | stretch _ more =>
        obtain ⟨rfl, rfl⟩ := List.append_eq_nil_iff.1 empty.symm
        exact ⟨rfl, more⟩
      | _ => cases empty
    · rintro ⟨rfl, more⟩
      exact @Taken.stretch pattern [] [] (by simp) more

theorem taken_cons_iff (fits : (p == any || sameByte p b) = true) :
    Taken (p :: pattern) (b :: text) ↔ Taken pattern text := by
  constructor
  · intro taken
    generalize whole : b :: text = all at taken
    cases taken with
    | starred more | one _ more | same _ _ more =>
      cases whole
      exact more
    | stretch other more =>
      have first : b = star := sameByte_star fits
      rw [← whole, first] at other
      exact absurd rfl other
  · intro more
    by_cases one : p = any
    · subst one
      exact .one b more
    have alike : sameByte p b = true := by simpa [one] using fits
    by_cases starred : p = star
    · subst starred
      rw [sameByte_star alike]
      exact .starred more
    · exact .same ⟨starred, one⟩ (by simpa [sameByte] using alike) more

theorem taken_star_iff (other : b ≠ star) : Taken (star :: pattern) (b :: text) ↔ TakenLater pattern (b :: text) := by
  constructor
  · exact Taken.later
  · rintro ⟨rest, ⟨skipped, split⟩, more⟩
    rw [← split]
    exact .stretch (by rw [split]; simpa using other) more

theorem not_taken (unlike : (p == any || sameByte p b) = false) (other : p ≠ star) : ¬Taken (p :: pattern) (b :: text) := by
  simp only [Bool.or_eq_false_iff, beq_eq_false_iff_ne, sameByte] at unlike
  intro taken
  generalize whole : b :: text = all at taken
  cases taken with
  | starred _ | stretch _ _ => exact other rfl
  | one _ _ => exact unlike.1 rfl
  | same _ alike _ =>
    cases whole
    exact unlike.2 alike

/-- What the matcher finds out about a pattern: whether it is taken for the text, and, if what else can be tried does
well, whether it is taken for some end of the text. It need not try an earlier `*` then. -/
structure Found (pattern : Bytes) : Prop where
  sound : ∀ text otherwise, fits pattern text otherwise = true → Taken pattern text ∨ otherwise () = true
  complete : ∀ text otherwise, Taken pattern text → fits pattern text otherwise = true
  later : ∀ text otherwise, TakenLater pattern text → otherwise () = true → fits pattern text otherwise = true

theorem Found.seek_iff (found : Found pattern) (text : Bytes) : seek (fits pattern) text = true ↔ TakenLater pattern text := by
  induction text with
  | nil =>
    constructor
    · intro sought
      rcases found.sound [] _ sought with taken | other
      · exact ⟨[], List.suffix_refl [], taken⟩
      · cases other
    · rintro ⟨rest, suffix, taken⟩
      rw [List.suffix_nil.1 suffix] at taken
      exact found.complete [] _ taken
  | cons b text ih =>
    constructor
    · intro sought
      rcases found.sound (b :: text) _ sought with taken | other
      · exact ⟨b :: text, List.suffix_refl _, taken⟩
      · obtain ⟨rest, suffix, taken⟩ := ih.1 other
        exact ⟨rest, suffix.trans (List.suffix_cons b text), taken⟩
    · rintro ⟨rest, suffix, taken⟩
      rcases List.suffix_cons_iff.1 suffix with rfl | suffix
      · exact found.complete _ _ taken
      · have other := ih.2 ⟨rest, suffix, taken⟩
        exact found.later _ _ ⟨rest, suffix.trans (List.suffix_cons b text), taken⟩ other

theorem found_nil : Found [] := by
  constructor
  · intro text otherwise fits
    cases text with
    | nil => exact .inl .done
    | cons b text => exact .inr fits
  · intro text otherwise taken
    cases taken
    rfl
  · intro text otherwise _ other
    cases text with
    | nil => rfl
    | cons b text => exact other

theorem fits_cons (p b : UInt8) (pattern text : Bytes) (otherwise : Unit → Bool) :
    fits (p :: pattern) (b :: text) otherwise =
      if p == any || sameByte p b then fits pattern text otherwise
      else if p == star then seek (fits pattern) (b :: text) else otherwise () := rfl

theorem found_cons (p : UInt8) (found : Found pattern) : Found (p :: pattern) := by
  -- a text that is used up is matched by stars alone, and the first byte of another decides which case it is
  constructor
  · intro text otherwise fits
    cases text with
    | nil => exact .inl (taken_nil_iff.2 fits)
    | cons b text =>
      rw [fits_cons] at fits
      split at fits
      · rename_i here
        rw [taken_cons_iff here]
        exact found.sound text otherwise fits
      · rename_i unlike
        split at fits
        · rename_i starred
          obtain rfl : p = star := by simpa using starred
          have other : b ≠ star := by
            rintro rfl
            exact unlike rfl
          exact .inl ((taken_star_iff other).2 ((found.seek_iff _).1 fits))
        · exact .inr fits
  · intro text otherwise taken
    cases text with
    | nil => exact taken_nil_iff.1 taken
    | cons b text =>
      rw [fits_cons]
      split
      · rename_i here
        exact found.complete text otherwise ((taken_cons_iff here).1 taken)
      · rename_i unlike
        split
        · exact (found.seek_iff _).2 taken.later
        · rename_i other
          exact absurd taken (not_taken (by simpa using unlike) (by simpa using other))
  · rintro text otherwise ⟨rest, suffix, taken⟩ other
    obtain ⟨after, ends, more⟩ := taken.later
    cases text with
    | nil =>
      rw [List.suffix_nil.1 suffix] at taken
      exact taken_nil_iff.1 taken
    | cons b text =>
      rw [fits_cons]
      split
      · rename_i here
        rcases List.suffix_cons_iff.1 suffix with rfl | suffix
        · exact found.complete text otherwise ((taken_cons_iff here).1 taken)
        · exact found.later text otherwise ⟨after, ends.trans suffix, more⟩ other
      · split
        · exact (found.seek_iff _).2 ⟨after, ends.trans suffix, more⟩
        · exact other

theorem found (pattern : Bytes) : Found pattern := by
  induction pattern with
  | nil => exact found_nil
  | cons p pattern ih => exact found_cons p ih

theorem matchesText_iff (pattern text : Text) :
    matchesText pattern text = true ↔ Taken (Text.encode pattern) (Text.encode text) := by
  constructor
  · intro fits
    rcases (found _).sound _ _ fits with taken | other
    · exact taken
    · cases other
  · exact (found _).complete _ _

/-- A search through all that the pattern can stand for. -/
def search : Bytes → Bytes → Bool
  | [], text => text.isEmpty
  | p :: pattern, text =>
    if p = star then text.tails.any (search pattern)
    else
      match text with
      | [] => false
      | b :: rest => (p = any || lower p = lower b) && search pattern rest

theorem search_iff : search pattern text = true ↔ Describes pattern text := by
  induction pattern generalizing text with
  | nil =>
    constructor
    · intro empty
      rw [List.isEmpty_iff.1 empty]
      exact .done
    · intro describes
      cases describes
      rfl
  | cons p pattern ih =>
    by_cases starred : p = star
    · subst starred
      simp only [search, if_pos, List.any_eq_true, List.mem_tails, ih]
      constructor
      · rintro ⟨rest, ⟨skipped, split⟩, more⟩
        rw [← split]
        exact .stretch skipped more
      · intro describes
        cases describes with
        | stretch skipped more => exact ⟨_, List.suffix_append _ _, more⟩
        | same plain _ _ => exact absurd rfl plain.1
    · cases text with
      | nil =>
        simp only [search, if_neg starred, Bool.false_eq_true, false_iff]
        intro describes
        generalize empty : ([] : Bytes) = text at describes
        cases describes with
        | stretch _ _ => exact starred rfl
        | one _ _ | same _ _ _ => cases empty
      | cons b rest =>
        simp only [search, if_neg starred, Bool.and_eq_true, Bool.or_eq_true, decide_eq_true_eq, ih]
        constructor
        · rintro ⟨alike, more⟩
          by_cases one : p = any
          · subst one
            exact .one b more
          · exact .same ⟨starred, one⟩ (alike.resolve_left one) more
        · intro describes
          generalize whole : b :: rest = text at describes
          cases describes with
          | stretch _ _ => exact absurd rfl starred
          | one _ more =>
            cases whole
            exact ⟨.inl rfl, more⟩
          | same _ alike more =>
            cases whole
            exact ⟨.inr alike, more⟩

instance (pattern text : Bytes) : Decidable (Describes pattern text) := decidable_of_iff _ search_iff

theorem encode_star (text : Text) : Text.encode ('*' :: text) = star :: Text.encode text := rfl

theorem encode_anys (n : Nat) (text : Text) :
    Text.encode (List.replicate n '?' ++ text) = List.replicate n any ++ Text.encode text := by
  induction n with
  | zero => rfl
  | succ n ih =>
    rw [List.replicate_succ, List.replicate_succ, List.cons_append, List.cons_append, ← ih]
    rfl

theorem Describes.anys {text : Bytes} (front : Bytes) (describes : Describes pattern text) :
    Describes (List.replicate front.length any ++ pattern) (front ++ text) := by
  induction front with
  | nil => exact describes
  | cons b front ih => exact .one b ih

theorem Taken.length_anys {n : Nat} (taken : Taken (List.replicate n any) text) : text.length = n := by
  induction n generalizing text with
  | zero =>
    cases taken
    rfl
  | succ n ih =>
    cases taken with
    | one b more => exact congrArg (· + 1) (ih more)
    | same plain _ _ => exact absurd rfl plain.2

theorem Taken.anys {front text : Bytes} (taken : Taken (List.replicate front.length any ++ pattern) (front ++ text)) :
    Taken pattern text := by
  induction front with
  | nil => exact taken
  | cons b front ih =>
    cases taken with
    | one b more => exact ih more
    | same plain _ _ => exact absurd rfl plain.2

/-- Only a text with a `*` in it can be described by a pattern that is not taken for it, and each of these is: by the
pattern that spells out the bytes around the `*` as any bytes, and has nothing for the `*` itself to take. -/
theorem always_taken_iff (text : Text) :
    (∀ pattern : Text, Describes (Text.encode pattern) (Text.encode text) →
      Taken (Text.encode pattern) (Text.encode text)) ↔ star ∉ Text.encode text := by
  constructor
  · intro always member
    obtain ⟨front, after, split⟩ := List.append_of_mem member
    have spelled : Text.encode (List.replicate front.length '?' ++ '*' :: List.replicate (after.length + 1) '?') =
        List.replicate front.length any ++ star :: List.replicate (star :: after).length any := by
      have closing := encode_anys (after.length + 1) []
      rw [List.append_nil, show Text.encode [] = [] from rfl, List.append_nil] at closing
      rw [encode_anys, encode_star, closing, List.length_cons]
    have rest : Describes (List.replicate (star :: after).length any) (star :: after) := by
      simpa using Describes.done.anys (star :: after)
    have describes := (Describes.stretch [] rest).anys front
    have taken := always (List.replicate front.length '?' ++ '*' :: List.replicate (after.length + 1) '?')
    rw [spelled, split] at taken
    have more := (taken_cons_iff (by decide)).1 (taken describes).anys
    have short := more.length_anys
    rw [List.length_cons] at short
    omega
  · intro clean pattern describes
    exact describes.taken clean

theorem taken_everything_iff : Taken [star] text ↔ (text.head? = some star → text = [star]) := by
  constructor
  · intro taken first
    cases taken with
    | starred more =>
      cases more
      rfl
    | stretch other _ => exact absurd first other
    | same plain _ _ => exact absurd rfl plain.1
  · intro alone
    by_cases first : text.head? = some star
    · rw [alone first]
      exact .starred .done
    · have other : (text ++ []).head? ≠ some star := by rwa [List.append_nil]
      have taken := Taken.stretch other .done
      rwa [List.append_nil] at taken

/-- Where the matcher stands: what it has still to match, and, once it has come to a `*`, what is behind the last one
and the text that it was tried against. -/
structure Place where
  pattern : Bytes
  text : Bytes
  last : Option (Bytes × Bytes)

/-- Back to the last `*`, which takes one byte more. -/
def back : Option (Bytes × Bytes) → Place ⊕ Bool
  | some (pattern, _ :: rest) => .inl ⟨pattern, rest, some (pattern, rest)⟩
  | _ => .inr false

/-- From one place to the next, or to the answer. -/
def look : Place → Place ⊕ Bool
  | ⟨pattern, [], _⟩ => .inr (pattern.all (· == star))
  | ⟨[], _ :: _, last⟩ => back last
  | ⟨p :: pattern, b :: text, last⟩ =>
    if p == any || sameByte p b then .inl ⟨pattern, text, last⟩
    else if p == star then .inl ⟨pattern, b :: text, some (pattern, b :: text)⟩
    else back last

/-- Looking on from a place comes to an answer in the end. -/
inductive Answers : Place ⊕ Bool → Bool → Prop where
  | now (answer : Bool) : Answers (.inr answer) answer
  | later {place : Place} {answer : Bool} (more : Answers (look place) answer) : Answers (.inl place) answer

theorem Answers.unique {start : Place ⊕ Bool} {answer other : Bool} (answers : Answers start answer) (again : Answers start other) :
    other = answer := by
  induction answers with
  | now answer =>
    cases again
    rfl
  | later _ ih =>
    cases again with
    | later more => exact ih more

theorem answers_seek (answers : ∀ text last otherwise, Answers (back last) (otherwise ()) →
    Answers (look ⟨pattern, text, last⟩) (fits pattern text otherwise)) (text : Bytes) :
    Answers (look ⟨pattern, text, some (pattern, text)⟩) (seek (fits pattern) text) := by
  induction text with
  | nil => exact answers [] _ _ (.now false)
  | cons b rest ih => exact answers (b :: rest) _ _ (.later ih)

/-- The place by place search ends, with what the matcher says. Every `*` takes the place of the one before it, and each
goes on over what is left of the text at most. -/
theorem answers_fits (pattern text : Bytes) (last : Option (Bytes × Bytes)) (otherwise : Unit → Bool)
    (backs : Answers (back last) (otherwise ())) : Answers (look ⟨pattern, text, last⟩) (fits pattern text otherwise) := by
  induction pattern generalizing text last otherwise with
  | nil =>
    cases text with
    | nil => exact .now true
    | cons b text => exact backs
  | cons p pattern ih =>
    cases text with
    | nil => exact .now _
    | cons b text =>
      have looked : look ⟨p :: pattern, b :: text, last⟩ =
          if p == any || sameByte p b then .inl ⟨pattern, text, last⟩
          else if p == star then .inl ⟨pattern, b :: text, some (pattern, b :: text)⟩
          else back last := rfl
      rw [looked, fits_cons]
      split
      · exact .later (ih text last otherwise backs)
      · split
        · exact .later (answers_seek ih (b :: text))
        · exact backs

/-- The matcher always comes to an answer. On a text without a `*`, as the names of the host's own commands and
variables are, it is whether the pattern describes the text. -/
theorem matches_exactly_described (pattern text : Text) :
    (∀ answer, Answers (.inl ⟨Text.encode pattern, Text.encode text, none⟩) answer ↔ answer = matchesText pattern text) ∧
    (star ∉ Text.encode text →
      (matchesText pattern text = true ↔ Describes (Text.encode pattern) (Text.encode text))) ∧
    (text ∈ NameTable.names Client.commandTable ++ NameTable.names Client.variableTable → star ∉ Text.encode text) := by
  have ends : Answers (.inl ⟨Text.encode pattern, Text.encode text, none⟩) (matchesText pattern text) :=
    .later (answers_fits _ _ none _ (.now false))
  have clean : ∀ name ∈ NameTable.names Client.commandTable ++ NameTable.names Client.variableTable,
      star ∉ Text.encode name := by decide
  refine ⟨fun answer => ⟨ends.unique, ?_⟩, fun clean => ?_, clean text⟩
  · rintro rfl
    exact ends
  · rw [matchesText_iff]
    exact ⟨Taken.describes, fun describes => describes.taken clean⟩

theorem timedemo_described : "timedemo".toList ∈ NameTable.names Client.commandTable ++ NameTable.names Client.variableTable ∧
    star ∉ Text.encode "timedemo" ∧ Describes (Text.encode "t?M*e*O") (Text.encode "timedemo") ∧
    ¬Describes (Text.encode "t*demos") (Text.encode "timedemo") := by
  have known : "timedemo".toList ∈ NameTable.names Client.commandTable ++ NameTable.names Client.variableTable := by decide
  obtain ⟨_, described, clean⟩ := matches_exactly_described "t?M*e*O" "timedemo"
  obtain ⟨_, longer, _⟩ := matches_exactly_described "t*demos" "timedemo"
  have found : matchesText "t?M*e*O" "timedemo" = true := by decide
  have missed : matchesText "t*demos" "timedemo" = false := by decide
  constructor
  · exact known
  · refine ⟨clean known, (described (clean known)).1 found, fun describes => ?_⟩
    exact nomatch missed.symm.trans ((longer (clean known)).2 describes)

end GameHost.Glob
