import GameHost.Proofs.Shell.Comments

/-!
The words of a line and the words of its tail. The tail is what follows the first word, without the blanks around it, and
blanks are not what separates words: a blank can be a part of a word, at either end if it is no gap, and at the end in any
case if a quote is left open. The tail has the words of the line after the first exactly if none of the blanks that it
lacks is kept in a word.
-/
namespace GameHost

namespace Token

/-- All words of a text. -/
def wordsOf (text : Text) : List Text := ((scans text).map Scan.word).takeWhile (! ·.isEmpty)

/-- How many characters there are up to the end of the first word as it is kept. -/
def wordEnd (text : Text) : Nat :=
  text.length - (skip false text).length + (if (skip false text).head? = some '"' then 1 else 0) + (scan text).word.length

/-- How many characters stand behind the last one that is kept in a word; at most `fuel` words are looked at. -/
def spareWithin : Nat → Text → Nat
  | 0, text => text.length
  | fuel + 1, text =>
    if (scan text).word.isEmpty then text.length
    else
      match (scan text).rest with
      | none => text.length - wordEnd text
      | some rest => if (scan rest).word.isEmpty then text.length - wordEnd text else spareWithin fuel rest

def spare (text : Text) : Nat := spareWithin (text.length + 1) text

/-- Of the blanks around a text none is kept in a word of it. -/
def Spared (text : Text) : Prop :=
  (∀ c ∈ text.takeWhile Text.isBlank, isGap c = true) ∧
    (Text.trimStart text).length - (Text.trim text).length ≤ spare (Text.trimStart text)

instance (text : Text) : Decidable (Spared text) := inferInstanceAs (Decidable (_ ∧ _))

theorem skip_suffix (open' : Bool) (text : Text) : skip open' text <:+ text := by
  induction text generalizing open' with
  | nil => cases open' <;> exact List.suffix_refl []
  | cons c text ih =>
    have later (open' : Bool) : skip open' text <:+ c :: text := (ih open').trans (List.suffix_cons c text)
    cases open' with
    | true => exact later _
    | false =>
      unfold skip
      split
      · exact later _
      · split
        · exact later _
        · exact List.suffix_refl _

theorem within_append (limit : Nat) (first later : Text) : within limit (first ++ later) =
    if Text.size first ≤ limit then first ++ within (limit - Text.size first) later else within limit first := by
  induction first generalizing limit with
  | nil => simp
  | cons c first ih =>
    rw [List.cons_append, within, within, Text.size_cons]
    by_cases fits : c.utf8Size ≤ limit
    · rw [if_pos fits, if_pos fits, ih]
      by_cases more : Text.size first ≤ limit - c.utf8Size
      · rw [if_pos more, if_pos (by omega), Nat.sub_add_eq, List.cons_append]
      · rw [if_neg more, if_neg (by omega)]
    · rw [if_neg fits, if_neg fits, if_neg (by omega)]

theorem clip_eq (word : Text) : clip word = within (lengthLimit - 1) word := by
  unfold clip
  split
  · rename_i short
    have all := within_append (lengthLimit - 1) word []
    have fits : Text.size word ≤ lengthLimit - 1 := Nat.le_sub_one_of_lt short
    rw [if_pos fits, List.append_nil] at all
    rw [all, within, List.append_nil]
  · rfl

theorem length_clip_le (word : Text) : (clip word).length ≤ word.length := by
  rw [clip_eq]
  have front := within_prefix (lengthLimit - 1) word
  exact front.length_le

/-- A longer run is kept as the shorter one exactly if no more of it is kept than the shorter one has. -/
theorem clip_append_iff (run more : Text) : (clip (run ++ more)).length ≤ run.length ↔ clip (run ++ more) = clip run := by
  constructor
  · intro fits
    rw [clip_eq, within_append] at fits
    rw [clip_eq, clip_eq, within_append]
    split
    · rename_i short
      rw [if_pos short, List.length_append] at fits
      have none : within (lengthLimit - 1 - Text.size run) more = [] := List.length_eq_zero_iff.1 (by omega)
      have all := within_append (lengthLimit - 1) run []
      rw [if_pos short, List.append_nil, within, List.append_nil] at all
      rw [none, List.append_nil, all]
    · rfl
  · intro same
    rw [same]
    exact length_clip_le run

/-- How the first word stands in a text: behind a quote, or as it is, and what it is read from is kept up to the limit. -/
structure Found (text opening run closing after : Text) : Prop where
  skipped : skip false text = opening ++ (run ++ (closing ++ after))
  started : opening ++ run ≠ []
  scanned : scan text = ⟨clip run, left after⟩
  ends : wordEnd text = text.length - (skip false text).length + opening.length + (clip run).length

section

variable {text rest : Text} {c : Char}

theorem not_gap_of_found (found : skip false text = c :: rest) : isGap c = false := by
  rcases skip_cases text with ⟨none, _⟩ | ⟨_, d, more, some, _, _, gap, _⟩
  · cases none.symm.trans found
  · cases some.symm.trans found
    exact gap

theorem found_quoted (found : skip false text = c :: rest) (quote : c = '"') :
    Found text [c] (rest.takeWhile (· != '"')) ((rest.dropWhile (· != '"')).take 1)
      ((rest.dropWhile (· != '"')).drop 1) := by
  have scanned : scan text = ⟨clip (rest.takeWhile (· != '"')), left ((rest.dropWhile (· != '"')).drop 1)⟩ := by
    rw [scan, found]
    exact if_pos (by simpa using quote)
  refine ⟨?_, by simp, scanned, ?_⟩
  · rw [found, List.take_append_drop, List.takeWhile_append_dropWhile, List.singleton_append]
  · rw [wordEnd, scanned, found, quote]
    rfl

theorem found_punctuation (found : skip false text = c :: rest) (quote : c ≠ '"') (punctuation : isPunctuation c = true) :
    Found text [] [c] [] rest := by
  have short := clip_single c
  have scanned : scan text = ⟨clip [c], left rest⟩ := by
    rw [scan, found]
    dsimp only
    rw [if_neg (by simpa using quote), if_pos punctuation, short]
  refine ⟨found, by simp, scanned, ?_⟩
  rw [wordEnd, scanned, found, List.head?_cons, if_neg (by simpa using quote)]
  rfl

theorem found_bare (found : skip false text = c :: rest) (quote : c ≠ '"') (wordChar : isWordChar c = true) :
    Found text [] ((c :: rest).takeWhile isWordChar) [] ((c :: rest).dropWhile isWordChar) := by
  have punctuation := (isGap_of_wordChar wordChar).2
  have scanned : scan text = ⟨clip ((c :: rest).takeWhile isWordChar), left ((c :: rest).dropWhile isWordChar)⟩ := by
    rw [scan, found]
    dsimp only
    rw [if_neg (by simpa using quote), punctuation, if_neg Bool.false_ne_true]
  refine ⟨?_, by simp [wordChar], scanned, ?_⟩
  · rw [found, List.nil_append, List.nil_append, List.takeWhile_append_dropWhile]
  · rw [wordEnd, scanned, found, List.head?_cons, if_neg (by simpa using quote)]
    rfl

theorem exists_found (found : skip false text = c :: rest) :
    ∃ opening run closing after, Found text opening run closing after := by
  by_cases quote : c = '"'
  · exact ⟨_, _, _, _, found_quoted found quote⟩
  · by_cases punctuation : isPunctuation c = true
    · exact ⟨_, _, _, _, found_punctuation found quote punctuation⟩
    · have gap := not_gap_of_found found
      exact ⟨_, _, _, _, found_bare found quote (by simp [isWordChar, gap, punctuation])⟩

end

/-- A word ends before what follows it, and that is shorter than what was not skipped. -/
theorem wordEnd_le {text rest : Text} (more : (scan text).rest = some rest) :
    wordEnd text + rest.length ≤ text.length ∧ rest.length < (skip false text).length := by
  cases skipped : skip false text with
  | nil =>
    rw [scan, skipped] at more
    cases more
  | cons c later =>
    obtain ⟨opening, run, closing, after, found⟩ := exists_found skipped
    have part := (skip_suffix false text).length_le
    have kept := length_clip_le run
    have started := List.length_pos_iff.2 found.started
    have whole := congrArg List.length found.skipped
    rw [found.scanned] at more
    have same := left_subset more
    subst same
    simp only [List.length_append] at started whole
    rw [← skipped]
    have ends := found.ends
    omega

theorem wordEnd_le_length (text : Text) : wordEnd text ≤ text.length := by
  have part := (skip_suffix false text).length_le
  cases skipped : skip false text with
  | nil =>
    rw [wordEnd, scan, skipped, List.head?_nil, if_neg (by simp), List.length_nil]
    omega
  | cons c later =>
    obtain ⟨opening, run, closing, after, found⟩ := exists_found skipped
    have kept := length_clip_le run
    have whole := congrArg List.length found.skipped
    simp only [List.length_append] at whole
    rw [found.ends]
    omega

/-- What is kept in words begins behind what is skipped. -/
theorem spareWithin_lt {fuel : Nat} {text : Text} (some : (scan text).word ≠ []) (enough : text.length < fuel) :
    spareWithin fuel text < (skip false text).length := by
  induction fuel generalizing text with
  | zero => exact absurd enough (Nat.not_lt_zero _)
  | succ fuel ih =>
    have part := (skip_suffix false text).length_le
    have start : text.length - wordEnd text < (skip false text).length := by
      cases skipped : skip false text with
      | nil =>
        rw [scan, skipped] at some
        exact absurd rfl some
      | cons c later =>
        obtain ⟨opening, run, closing, after, found⟩ := exists_found skipped
        rw [found.scanned] at some
        have kept := List.length_pos_iff.2 some
        have ends := found.ends
        rw [skipped] at part ends
        dsimp only at kept
        rw [List.length_cons] at *
        omega
    rw [spareWithin, if_neg (by simpa using some)]
    split
    · exact start
    · rename_i rest more
      split
      · exact start
      · rename_i later
        have shorter := (wordEnd_le more).2
        have onward : spareWithin fuel rest < (skip false rest).length := ih (by simpa using later) (by omega)
        have behind := (skip_suffix false rest).length_le
        omega

/-- Once every character can be looked at, more looks find the same. -/
theorem spareWithin_eq {text : Text} {fuel more : Nat} (enough : text.length < fuel) (too : text.length < more) :
    spareWithin fuel text = spareWithin more text := by
  induction fuel generalizing text more with
  | zero => exact absurd enough (Nat.not_lt_zero _)
  | succ fuel ih =>
    obtain ⟨more, rfl⟩ : ∃ fewer, more = fewer + 1 := ⟨more - 1, by omega⟩
    rw [spareWithin, spareWithin]
    have part := (skip_suffix false text).length_le
    cases next : (scan text).rest with
    | none => rfl
    | some rest =>
      have shorter := (wordEnd_le next).2
      have same : spareWithin fuel rest = spareWithin more rest := ih (by omega) (by omega)
      dsimp only
      rw [same]

theorem spare_eq (text : Text) : spare text =
    if (scan text).word.isEmpty then text.length
    else
      match (scan text).rest with
      | none => text.length - wordEnd text
      | some rest => if (scan rest).word.isEmpty then text.length - wordEnd text else spare rest := by
  rw [spare, spareWithin]
  have part := (skip_suffix false text).length_le
  cases next : (scan text).rest with
  | none => rfl
  | some rest =>
    have shorter := (wordEnd_le next).2
    have same : spareWithin text.length rest = spareWithin (rest.length + 1) rest :=
      spareWithin_eq (by omega) (Nat.lt_succ_self _)
    dsimp only
    rw [same, spare]

theorem scansWithin_eq {text : Text} {fuel more : Nat} (enough : text.length < fuel) (too : text.length < more) :
    scansWithin fuel text = scansWithin more text := by
  induction fuel generalizing text more with
  | zero => exact absurd enough (Nat.not_lt_zero _)
  | succ fuel ih =>
    obtain ⟨more, rfl⟩ : ∃ fewer, more = fewer + 1 := ⟨more - 1, by omega⟩
    rw [scansWithin, scansWithin]
    have part := (skip_suffix false text).length_le
    cases next : (scan text).rest with
    | none => rfl
    | some rest =>
      have shorter := (wordEnd_le next).2
      have same : scansWithin fuel rest = scansWithin more rest := ih (by omega) (by omega)
      dsimp only
      rw [same]

theorem wordsOf_eq (text : Text) : wordsOf text =
    if (scan text).word.isEmpty then [] else (scan text).word :: (scan text).rest.elim [] wordsOf := by
  have part := (skip_suffix false text).length_le
  cases next : (scan text).rest with
  | none =>
    have last : scans text = [scan text] := by rw [scans, scansWithin, next]
    rw [wordsOf, last, List.map_singleton, List.takeWhile_cons]
    cases (scan text).word.isEmpty <;> rfl
  | some rest =>
    have shorter := (wordEnd_le next).2
    have same : scansWithin text.length rest = scansWithin (rest.length + 1) rest :=
      scansWithin_eq (by omega) (Nat.lt_succ_self _)
    have more : scans text = scan text :: scans rest := by rw [scans, scansWithin, next, scans, ← same]
    rw [wordsOf, more, List.map_cons, List.takeWhile_cons]
    cases (scan text).word.isEmpty <;> rfl

theorem skip_append_none {open' : Bool} {text : Text} (none : skip open' text = []) (behind : Text) :
    skip open' (text ++ behind) <:+ behind := by
  induction text generalizing open' with
  | nil => exact skip_suffix open' behind
  | cons c text ih =>
    cases open' with
    | true => exact ih none
    | false =>
      unfold skip at none
      rw [List.cons_append, skip]
      split at none
      · rename_i gap
        rw [if_pos gap]
        exact ih none
      · rename_i gap
        rw [if_neg gap]
        split at none
        · rename_i comment
          have still : (c == '/' && (text ++ behind).head? == some '/') = true := by
            cases text with
            | nil => simp at comment
            | cons d text => exact comment
          rw [if_pos still]
          exact ih none
        · cases none

section

variable {front back : Text}

/-- The last word of a text, if it is read up to the end or has nothing behind it, and what becomes of it with more behind
the text: the word may be longer, and may then be kept as it is or not. -/
structure Closing (front back run more after : Text) : Prop where
  last : scan front = ⟨clip run, none⟩
  longer : scan (front ++ back) = ⟨clip (run ++ more), left after⟩
  part : after <:+ back
  ends : wordEnd (front ++ back) ≤ front.length ↔ (clip (run ++ more)).length ≤ run.length

theorem Found.closing {opening run closing closing' more after : Text} (found : Found front opening run closing [])
    (longer : Found (front ++ back) opening (run ++ more) closing' after) (part : after <:+ back)
    (skipped : (skip false (front ++ back)).length = (skip false front).length + back.length)
    (either : closing = [] ∨ more = []) : Closing front back run more after := by
  refine ⟨found.scanned, longer.scanned, part, ?_⟩
  have whole := congrArg List.length found.skipped
  have inside := (skip_suffix false front).length_le
  have kept := length_clip_le run
  have started := List.length_pos_iff.2 found.started
  rw [longer.ends]
  simp only [List.length_append, List.length_nil] at whole skipped started ⊢
  rcases either with rfl | rfl
  · rw [List.length_nil] at whole
    omega
  · rw [List.append_nil]
    omega

theorem append_cases (blank : ∀ c ∈ back, Text.isBlank c = true) : skip false front = [] ∨
    (∃ word after, Onward front back word after) ∨ ∃ run more after, Closing front back run more after := by
  cases skipped : skip false front with
  | nil => exact .inl rfl
  | cons c rest =>
    have longer : skip false (front ++ back) = c :: (rest ++ back) := by
      refine skip_append_apart skipped fun _ _ slash => ?_
      exact absurd (blank '/' (List.mem_of_head? slash)) (by decide)
    have grown : (skip false (front ++ back)).length = (skip false front).length + back.length := by
      rw [longer, skipped, List.length_cons, List.length_cons, List.length_append]
      omega
    refine .inr ?_
    by_cases quote : c = '"'
    · have found := found_quoted skipped quote
      have more := found_quoted longer quote
      have same : (c == '"') = true := by simpa using quote
      cases dropped : rest.dropWhile (· != '"') with
      | nil =>
        have open' := List.dropWhile_eq_nil_iff.1 dropped
        have clean : ∀ d ∈ rest ++ back, (d != '"') = true := by
          intro d member
          rcases List.mem_append.1 member with inside | behind
          · exact open' d inside
          · rw [bne_iff_ne]
            rintro rfl
            exact absurd (blank '"' behind) (by decide)
        rw [dropped, List.takeWhile_eq_self_iff.2 open'] at found
        rw [List.takeWhile_eq_self_iff.2 clean, List.dropWhile_eq_nil_iff.2 clean] at more
        exact .inr ⟨rest, back, [], found.closing more List.nil_suffix grown (.inl rfl)⟩
      | cons d after =>
        obtain ⟨taken, kept⟩ := span_append dropped back
        by_cases last : after = []
        · subst last
          rw [dropped] at found
          rw [taken, kept] at more
          rw [← List.append_nil (rest.takeWhile (· != '"'))] at more
          exact .inr ⟨_, [], back, found.closing more (List.suffix_refl back) grown (.inr rfl)⟩
        · exact .inl ⟨_, after, onward_quoted skipped longer same dropped last⟩
    · have other : ¬(c == '"') = true := by simpa using quote
      by_cases punctuation : isPunctuation c = true
      · by_cases last : rest = []
        · subst last
          have found := found_punctuation skipped quote punctuation
          have more := found_punctuation longer quote punctuation
          have same : Found (front ++ back) [] ([c] ++ []) [] back := more
          exact .inr ⟨[c], [], back, found.closing same (List.suffix_refl back) grown (.inr rfl)⟩
        · exact .inl ⟨_, rest, onward_punctuation skipped longer other punctuation last⟩
      · have gap := not_gap_of_found skipped
        have wordChar : isWordChar c = true := by simp [isWordChar, gap, punctuation]
        have found := found_bare skipped quote wordChar
        have more := found_bare longer quote wordChar
        cases dropped : (c :: rest).dropWhile isWordChar with
        | nil =>
          have all := List.dropWhile_eq_nil_iff.1 dropped
          rw [dropped, List.takeWhile_eq_self_iff.2 all] at found
          rw [← List.cons_append, List.takeWhile_append_of_pos all, List.dropWhile_append_of_pos all] at more
          exact .inr ⟨c :: rest, _, _, found.closing more (List.dropWhile_suffix _) grown (.inl rfl)⟩
        | cons d after => exact .inl ⟨_, d :: after, onward_bare skipped longer other punctuation dropped⟩

theorem spare_of_wordless {text : Text} (none : (scan text).word = []) : spare text = text.length := by
  rw [spare_eq, none]
  rfl

theorem spare_lt {text : Text} (some : (scan text).word ≠ []) : spare text < (skip false text).length :=
  spareWithin_lt some (Nat.lt_succ_self _)

theorem wordsOf_of_wordless {text : Text} (none : (scan text).word = []) : wordsOf text = [] := by
  rw [wordsOf_eq, none]
  rfl

theorem wordsOf_of_word {text : Text} (some : (scan text).word ≠ []) :
    wordsOf text = (scan text).word :: (scan text).rest.elim [] wordsOf := by
  rw [wordsOf_eq, if_neg (by simpa using some)]

theorem elim_left (text : Text) : (left text).elim [] wordsOf = wordsOf text := by
  rcases left_eq text with ⟨none, rfl⟩ | ⟨some, _⟩
  · rw [none]
    rfl
  · rw [some]
    rfl

/-- Blanks behind the last word of a text: they are of no account if what is kept of the word is, and no word is among
them. -/
theorem Closing.append_iff {run more after : Text} (closing : Closing front back run more after) :
    wordsOf (front ++ back) = wordsOf front ↔ back.length ≤ spare (front ++ back) := by
  obtain ⟨last, longer, part, ends⟩ := closing
  have bound := wordEnd_le_length (front ++ back)
  rw [List.length_append] at bound
  by_cases none : clip (run ++ more) = []
  · have empty : run ++ more = [] := by
      by_contra some
      exact clip_ne_nil some none
    obtain ⟨rfl, rfl⟩ := List.append_eq_nil_iff.1 empty
    have one : (scan front).word = [] := by rw [last]; rfl
    have two : (scan (front ++ back)).word = [] := by rw [longer]; rfl
    simp [wordsOf_of_wordless one, wordsOf_of_wordless two, spare_of_wordless two]
  · have some : (scan (front ++ back)).word ≠ [] := by rwa [longer]
    have words : wordsOf (front ++ back) = clip (run ++ more) :: wordsOf after := by
      rw [wordsOf_of_word some, longer, elim_left]
    have before : wordsOf front = if (clip run).isEmpty then [] else [clip run] := by
      rw [wordsOf_eq, last]
      rfl
    have spared : spare (front ++ back) = if (scan after).word.isEmpty then (front ++ back).length - wordEnd (front ++ back)
        else spare after := by
      rw [spare_eq, if_neg (by simpa using some), longer]
      rcases left_eq after with ⟨nothing, rfl⟩ | ⟨something, _⟩
      · rw [nothing]
        rfl
      · rw [something]
    rw [words, before]
    by_cases wordless : (scan after).word = []
    · rw [spared, wordsOf_of_wordless wordless, wordless, if_pos List.isEmpty_nil, List.length_append]
      have kept : clip (run ++ more) = clip run ↔ back.length ≤ front.length + back.length - wordEnd (front ++ back) := by
        rw [← clip_append_iff, ← ends]
        omega
      rw [← kept]
      cases short : clip run with
      | nil => simp [none]
      | cons c word => simp
    · have later := spare_lt wordless
      have behind := (skip_suffix false after).length_le
      have within := part.length_le
      have words : wordsOf after ≠ [] := by
        rw [wordsOf_of_word wordless]
        exact List.cons_ne_nil _ _
      have spared : spare (front ++ back) = spare after := by rw [spared, if_neg (by simpa using wordless)]
      rw [spared]
      constructor
      · split
        · intro same
          exact absurd same (List.cons_ne_nil _ _)
        · intro same
          exact absurd (List.cons.inj same).2 words
      · omega

/-- Blanks behind a text leave its words as they are exactly if none of them is kept in a word. -/
theorem wordsOf_append_iff (blank : ∀ c ∈ back, Text.isBlank c = true) :
    wordsOf (front ++ back) = wordsOf front ↔ back.length ≤ spare (front ++ back) := by
  -- what is left of the text is shorter with every word
  induction length : front.length using Nat.strong_induction_on generalizing front with
  | _ size ih =>
    have part := (skip_suffix false front).length_le
    rcases append_cases blank with nothing | ⟨word, after, one, two⟩ | ⟨run, more, after, closing⟩
    · have one : (scan front).word = [] := by rw [scan, nothing]
      rw [wordsOf_of_wordless one]
      by_cases wordless : (scan (front ++ back)).word = []
      · simp [wordsOf_of_wordless wordless, spare_of_wordless wordless]
      · have later := spare_lt wordless
        have behind := (skip_append_none nothing back).length_le
        rw [wordsOf_of_word wordless]
        constructor
        · intro same
          cases same
        · omega
    · have shorter := (wordEnd_le (congrArg Scan.rest one)).2
      have bound := (wordEnd_le (congrArg Scan.rest two)).1
      have onward := ih after.length (by omega) rfl
      by_cases empty : word = []
      · subst empty
        have one : (scan front).word = [] := by rw [one]
        have two : (scan (front ++ back)).word = [] := by rw [two]
        simp [wordsOf_of_wordless one, wordsOf_of_wordless two, spare_of_wordless two]
      · have words : wordsOf front = word :: wordsOf after := by
          rw [wordsOf_of_word (by rwa [one]), one]
          rfl
        have longer : wordsOf (front ++ back) = word :: wordsOf (after ++ back) := by
          rw [wordsOf_of_word (by rwa [two]), two]
          rfl
        have same : wordsOf (front ++ back) = wordsOf front ↔ wordsOf (after ++ back) = wordsOf after := by
          rw [words, longer, List.cons_inj_right]
        rw [same, onward, spare_eq (front ++ back), two]
        dsimp only
        rw [if_neg (by simpa using empty)]
        split
        · rename_i wordless
          rw [spare_of_wordless (by simpa using wordless)]
          rw [List.length_append] at bound ⊢
          omega
        · rfl
    · exact closing.append_iff

end

section

variable {text : Text}

theorem wordsOf_congr {other : Text} (same : skip false text = skip false other) : wordsOf text = wordsOf other := by
  rw [wordsOf_eq, wordsOf_eq, scan, scan, same]

theorem skip_gaps {front : Text} (gaps : ∀ c ∈ front, isGap c = true) (text : Text) :
    skip false (front ++ text) = skip false text := by
  induction front with
  | nil => rfl
  | cons c front ih =>
    rw [List.cons_append, skip, if_pos (gaps c List.mem_cons_self)]
    exact ih fun other member => gaps other (List.mem_cons_of_mem c member)

/-- A character that a word can begin with as it stands is what the first word begins with. -/
theorem wordsOf_plain {c : Char} (gap : isGap c = false) (quote : c ≠ '"') (slash : c ≠ '/') (rest : Text) :
    ∃ word later, wordsOf (c :: rest) = (c :: word) :: later := by
  have skipped : skip false (c :: rest) = c :: rest := by
    rw [skip, gap, if_neg Bool.false_ne_true, if_neg (by simp [slash])]
  obtain ⟨run, after, scanned, first⟩ : ∃ run after, scan (c :: rest) = ⟨clip run, left after⟩ ∧ run.head? = some c := by
    by_cases punctuation : isPunctuation c = true
    · exact ⟨[c], rest, (found_punctuation skipped quote punctuation).scanned, rfl⟩
    · have wordChar : isWordChar c = true := by simp [isWordChar, gap, punctuation]
      exact ⟨_, _, (found_bare skipped quote wordChar).scanned, by simp [wordChar]⟩
  have some : clip run ≠ [] := by
    refine clip_ne_nil ?_
    rintro rfl
    cases first
  obtain ⟨d, word, clipped⟩ := List.exists_cons_of_ne_nil some
  have same : run.head? = Option.some d := head?_clip (by rw [clipped]; rfl)
  rw [first] at same
  cases same
  rw [wordsOf_of_word (by rwa [scanned]), scanned, clipped]
  exact ⟨word, _, rfl⟩

theorem not_special_of_blank {c : Char} (blank : Text.isBlank c = true) : c ≠ '"' ∧ c ≠ '/' := by
  constructor <;>
  · rintro rfl
    exact absurd blank (by decide)

/-- A blank in front of a text that is no gap is what the first word begins with. -/
theorem wordsOf_blank {c : Char} (leading : c ∈ text.takeWhile Text.isBlank) (solid : isGap c = false) :
    ∃ d word later, Text.isBlank d = true ∧ wordsOf text = (d :: word) :: later := by
  induction text with
  | nil => cases leading
  | cons d text ih =>
    rw [List.takeWhile_cons] at leading
    split at leading
    · rename_i blank
      cases gap : isGap d with
      | true =>
        have other : c ≠ d := by
          rintro rfl
          rw [gap] at solid
          cases solid
        obtain ⟨e, word, later, blank, words⟩ := ih ((List.mem_cons.1 leading).resolve_left other)
        have skipped : wordsOf (d :: text) = wordsOf text := wordsOf_congr (by rw [skip, if_pos gap])
        exact ⟨e, word, later, blank, skipped.trans words⟩
      | false =>
        obtain ⟨quote, slash⟩ := not_special_of_blank blank
        obtain ⟨word, later, words⟩ := wordsOf_plain gap quote slash text
        exact ⟨d, word, later, blank, words⟩
    · cases leading

theorem exists_trimmed (text : Text) :
    ∃ back, text = Text.trimEnd text ++ back ∧ ∀ c ∈ back, Text.isBlank c = true := by
  refine ⟨(text.reverse.takeWhile Text.isBlank).reverse, ?_, ?_⟩
  · rw [Text.trimEnd, ← List.reverse_append, List.takeWhile_append_dropWhile, List.reverse_reverse]
  · intro c member
    exact List.all_eq_true.1 List.all_takeWhile c (List.mem_reverse.1 member)

theorem head?_trim {c : Char} (first : (Text.trim text).head? = some c) : Text.isBlank c = false := by
  obtain ⟨back, whole, _⟩ := exists_trimmed (Text.trimStart text)
  have start : (Text.trimStart text).head? = some c := by
    rw [whole, List.head?_append, ← Text.trim, first]
    rfl
  have other := List.head?_dropWhile_not Text.isBlank text
  rw [← Text.trimStart, start] at other
  simpa using other

/-- Where the blanks in front are gaps, the text without the blanks around it has the same words exactly if no blank at the
end is kept in a word. -/
theorem wordsOf_trim_iff (gaps : ∀ c ∈ text.takeWhile Text.isBlank, isGap c = true) :
    wordsOf (Text.trim text) = wordsOf text ↔ Spared text := by
  obtain ⟨back, whole, blank⟩ := exists_trimmed (Text.trimStart text)
  have start : wordsOf text = wordsOf (Text.trimStart text) := by
    have split : text = text.takeWhile Text.isBlank ++ Text.trimStart text := List.takeWhile_append_dropWhile.symm
    calc wordsOf text = wordsOf (text.takeWhile Text.isBlank ++ Text.trimStart text) := by rw [← split]
      _ = wordsOf (Text.trimStart text) := wordsOf_congr (skip_gaps gaps _)
  have behind : (Text.trimStart text).length - (Text.trim text).length = back.length := by
    have lengths := congrArg List.length whole
    rw [List.length_append, ← Text.trim] at lengths
    omega
  have same : wordsOf (Text.trim text ++ back) = wordsOf (Text.trim text) ↔ back.length ≤ spare (Text.trim text ++ back) :=
    wordsOf_append_iff blank
  rw [Text.trim, ← whole] at same
  rw [Spared, behind, start, Text.trim, eq_comm, same]
  exact ⟨fun short => ⟨gaps, short⟩, And.right⟩

/-- The text without the blanks around it has the same words if no blank is kept in one. -/
theorem Spared.wordsOf_trim (spared : Spared text) : wordsOf (Text.trim text) = wordsOf text :=
  (wordsOf_trim_iff spared.1).2 spared

/-- It has the same words in no other case, if it begins with what a word can begin with as it stands. -/
theorem Spared.of_words (plain : ∀ c ∈ (Text.trim text).head?, isGap c = false ∧ c ≠ '"' ∧ c ≠ '/')
    (same : wordsOf (Text.trim text) = wordsOf text) : Spared text := by
  refine (wordsOf_trim_iff fun c leading => ?_).1 same
  by_contra solid
  obtain ⟨d, word, later, blank, words⟩ := wordsOf_blank leading (Bool.not_eq_true _ ▸ solid)
  rw [words] at same
  cases trimmed : Text.trim text with
  | nil =>
    rw [trimmed] at same
    cases same
  | cons e more =>
    have first : (Text.trim text).head? = some e := by rw [trimmed]; rfl
    obtain ⟨gap, quote, slash⟩ := plain e first
    obtain ⟨other, others, begins⟩ := wordsOf_plain gap quote slash more
    rw [trimmed, begins] at same
    have dark := head?_trim first
    cases same
    rw [blank] at dark
    cases dark

/-- Where no quote is left open, a word ends with a character that is no gap. -/
theorem closed_found {fuel : Nat} {c : Char} {rest : Text} (skipped : skip false text = c :: rest)
    (closed : closesWithin (fuel + 1) text = true) : ∃ opening run closing after, Found text opening run closing after ∧
      closesWithin fuel after = true ∧ ∃ front d, opening ++ (run ++ closing) = front ++ [d] ∧ isGap d = false := by
  rw [closesWithin, skipped] at closed
  dsimp only at closed
  by_cases quote : c = '"'
  · have found := found_quoted skipped quote
    rw [if_pos (by simpa using quote)] at closed
    cases dropped : rest.dropWhile (· != '"') with
    | nil =>
      rw [dropped] at closed
      cases closed
    | cons d after =>
      rw [dropped] at closed found
      have closing : d = '"' := by
        have first := List.head?_dropWhile_not (· != '"') rest
        rw [dropped] at first
        simpa using first
      subst closing
      exact ⟨_, _, _, _, found, closed, c :: rest.takeWhile (· != '"'), '"', rfl, by decide⟩
  · rw [if_neg (by simpa using quote)] at closed
    have gap := not_gap_of_found skipped
    by_cases punctuation : isPunctuation c = true
    · rw [if_pos punctuation] at closed
      exact ⟨_, _, _, _, found_punctuation skipped quote punctuation, closed, [], c, rfl, gap⟩
    · rw [if_neg punctuation] at closed
      have wordChar : isWordChar c = true := by simp [isWordChar, gap, punctuation]
      have some : (c :: rest).takeWhile isWordChar ≠ [] := by simp [wordChar]
      have all : ∀ d ∈ (c :: rest).takeWhile isWordChar, isWordChar d = true := List.all_eq_true.1 List.all_takeWhile
      refine ⟨_, _, _, _, found_bare skipped quote wordChar, closed, ((c :: rest).takeWhile isWordChar).dropLast,
        List.getLast _ some, ?_, ?_⟩
      · rw [List.nil_append, List.append_nil, List.dropLast_append_getLast]
      · exact (isGap_of_wordChar (all _ (List.getLast_mem some))).1

theorem suffix_of_gaps {back front after : Text} {d : Char} (ending : back <:+ front ++ d :: after)
    (gaps : ∀ c ∈ back, isGap c = true) (solid : isGap d = false) : back <:+ after := by
  have apart : d ∉ back := by
    intro member
    rw [gaps d member] at solid
    cases solid
  rcases List.suffix_or_suffix_of_suffix ending ⟨front, rfl⟩ with inside | longer
  · rcases List.suffix_cons_iff.1 inside with same | inside
    · exact absurd (by rw [same]; exact List.mem_cons_self) apart
    · exact inside
  · exact absurd (longer.subset List.mem_cons_self) apart

/-- Where no quote is left open, the gaps at the end of a text are kept in no word. -/
theorem gaps_le_spare {fuel : Nat} {text back : Text} (closed : closesWithin fuel text = true) (enough : text.length < fuel)
    (ending : back <:+ text) (gaps : ∀ c ∈ back, isGap c = true) : back.length ≤ spare text := by
  induction fuel generalizing text with
  | zero => exact absurd enough (Nat.not_lt_zero _)
  | succ fuel ih =>
    by_cases wordless : (scan text).word = []
    · rw [spare_of_wordless wordless]
      exact ending.length_le
    cases skipped : skip false text with
    | nil => exact absurd (by rw [scan, skipped]) wordless
    | cons c rest =>
      obtain ⟨opening, run, closing, after, found, still, front, d, ends, solid⟩ := closed_found skipped closed
      obtain ⟨before, whole⟩ := skip_suffix false text
      have split : text = (before ++ front) ++ d :: after := by
        calc text = before ++ ((opening ++ (run ++ closing)) ++ after) := by
              rw [← whole, found.skipped]
              simp only [List.append_assoc]
          _ = (before ++ front) ++ d :: after := by
              rw [ends]
              simp only [List.append_assoc, List.singleton_append]
      have behind : back <:+ after := by
        rw [split] at ending
        exact suffix_of_gaps ending gaps solid
      have within := behind.length_le
      rw [spare_eq, if_neg (by simpa using wordless), found.scanned]
      rcases left_eq after with ⟨nothing, empty⟩ | ⟨something, _⟩
      · rw [empty, List.length_nil] at within
        omega
      · have bound : wordEnd text + after.length ≤ text.length ∧ after.length < (skip false text).length :=
          wordEnd_le (by rw [found.scanned, something])
        rw [something]
        dsimp only
        split
        · omega
        · have shorter := (skip_suffix false text).length_le
          exact ih still (by omega) behind

/-- Where no quote is left open and all blanks are gaps, no blank is kept in a word at either end. -/
theorem Spared.of_closed (closed : closes text = true) (gaps : ∀ c ∈ text, Text.isBlank c = true → isGap c = true) :
    Spared text := by
  have leading : ∀ c ∈ text.takeWhile Text.isBlank, isGap c = true := by
    intro c member
    have blank : Text.isBlank c = true := List.all_eq_true.1 List.all_takeWhile c member
    exact gaps c (List.takeWhile_subset _ member) blank
  have whole : text.takeWhile Text.isBlank ++ Text.trimStart text = text := List.takeWhile_append_dropWhile
  have skipped : skip false text = skip false (Text.trimStart text) := by
    have same := skip_gaps leading (Text.trimStart text)
    rwa [whole] at same
  have still : closesWithin (text.length + 1) (Text.trimStart text) = true := by
    rw [closes, closesWithin, skipped] at closed
    rwa [closesWithin]
  have shorter : (Text.trimStart text).length ≤ text.length := (List.dropWhile_suffix _).length_le
  obtain ⟨back, split, blank⟩ := exists_trimmed (Text.trimStart text)
  have behind : back <:+ Text.trimStart text := ⟨_, split.symm⟩
  have dark : ∀ c ∈ back, isGap c = true := by
    intro c member
    exact gaps c (List.dropWhile_subset _ (behind.subset member)) (blank c member)
  refine ⟨leading, ?_⟩
  have enough := gaps_le_spare still (Nat.lt_succ_of_le shorter) behind dark
  have lengths := congrArg List.length split
  rw [List.length_append, ← Text.trim] at lengths
  omega

end

end Token

namespace Line

theorem tail_of_scan {text word rest : Text} {c : Char} (first : Token.scan text = ⟨c :: word, some rest⟩) :
    (ofText text).tail = Text.trim rest := by
  have scans : Token.scans text = ⟨c :: word, some rest⟩ :: Token.scansWithin text.length rest :=
    Token.scansWithin_some first _
  unfold ofText
  rw [scans]
  rfl

theorem words_eq (text : Text) : (ofText text).words = (Token.wordsOf text).take wordLimit := rfl

/-- No word is dropped from a line that has fewer than the most. -/
theorem words_of_few {text : Text} (few : (ofText text).count < wordLimit) : (ofText text).words = Token.wordsOf text := by
  rw [count, words_eq, List.length_take] at few
  rw [words_eq, List.take_of_length_le (by omega)]

/-- A line of several words, none of them dropped: its tail has the words after the first if none of the blanks that the
tail lacks is kept in one of them, as is the case where no quote is left open and all blanks are gaps. In no other case has
it these words, if it begins with what a word can begin with as it stands. -/
theorem tail_words {text : Text} (several : 2 ≤ (ofText text).count) (few : (ofText text).count < wordLimit) :
    ∃ rest, (Token.scan text).rest = some rest ∧ Token.wordsOf rest = (ofText text).words.drop 1 ∧
      (ofText text).tail = Text.trim rest ∧
      (Token.closes rest = true → (∀ c ∈ rest, Text.isBlank c = true → Token.isGap c = true) → Token.Spared rest) ∧
      (Token.Spared rest → (ofText (ofText text).tail).words = (ofText text).words.drop 1) ∧
      ((∀ c ∈ (ofText text).tail.head?, Token.isGap c = false ∧ c ≠ '"' ∧ c ≠ '/') →
        (ofText (ofText text).tail).words = (ofText text).words.drop 1 → Token.Spared rest) := by
  have whole := words_of_few few
  rw [count, whole] at several few
  cases first : Token.scan text with
  | mk word after =>
  match word, after with
  | [], _ =>
    rw [Token.wordsOf_of_wordless (by rw [first])] at several
    exact absurd several (by decide)
  | c :: word, none =>
    rw [Token.wordsOf_of_word (by rw [first]; exact List.cons_ne_nil c word), first] at several
    exact absurd several (by decide : ¬2 ≤ 1)
  | c :: word, some rest =>
    have words : Token.wordsOf text = (c :: word) :: Token.wordsOf rest := by
      rw [Token.wordsOf_of_word (by rw [first]; exact List.cons_ne_nil c word), first]
      rfl
    have tail := tail_of_scan first
    rw [words, List.length_cons] at few
    rw [whole, words, List.drop_one, List.tail_cons, tail]
    have same : (ofText (Text.trim rest)).words = Token.wordsOf rest ↔
        Token.wordsOf (Text.trim rest) = Token.wordsOf rest := by
      constructor
      · intro same
        rw [← same]
        refine (words_of_few ?_).symm
        rw [count, same]
        exact Nat.lt_of_succ_lt few
      · intro same
        rw [words_eq, same]
        exact List.take_of_length_le (Nat.le_of_lt (Nat.lt_of_succ_lt few))
    refine ⟨rest, rfl, rfl, rfl, Token.Spared.of_closed, ?_, ?_⟩
    · intro spared
      exact same.2 spared.wordsOf_trim
    · intro plain agree
      exact .of_words plain (same.1 agree)

/-- A quote that is left open keeps the blank behind it, which the tail lacks. -/
theorem open_quote_tail :
    let line := ofText "say \"a "
    line.words = ["say".toList, "a ".toList] ∧ line.tail = "\"a".toList ∧
      (ofText line.tail).words = ["a".toList] ∧ ∃ rest, (Token.scan "say \"a ").rest = some rest ∧ ¬Token.Spared rest := by
  intro line
  have several : 2 ≤ line.count := by decide
  obtain ⟨rest, next, _, _, _, spared, _⟩ := tail_words several (by decide)
  refine ⟨by decide, by decide, by decide, rest, next, fun kept => ?_⟩
  exact absurd (spared kept) (by decide)

end Line

end GameHost
