import GameHost.Line

/-!
The words of a line. The first word of a line that begins with a plain name and a space is that name; every word is
shorter than the limit, and all the characters of words and tail are characters of the text.
-/
namespace GameHost

namespace Token

/-- What a word of a line always is, and what has to stand between quotes to be one. -/
structure Word (word : Text) : Prop where
  nonempty : word ≠ []
  unquoted : word.head? ≠ some '"'
  short : Text.size word < lengthLimit

/-- A text that is scanned as one word where a space follows it. -/
structure Simple (word : Text) : Prop extends Word word where
  uncommented : ¬['/', '/'] <+: word
  chars : ∀ c ∈ word, isWordChar c = true

theorem scan_gap (text : Text) : scan (' ' :: text) = scan text := by
  simp [scan, skip, isGap]

theorem isGap_of_wordChar {c : Char} (wordChar : isWordChar c = true) :
    isGap c = false ∧ isPunctuation c = false := by
  simpa [isWordChar] using wordChar

theorem scan_of_simple {word : Text} (simple : Simple word) (rest : Text) :
    scan (word ++ ' ' :: rest) = ⟨word, some (' ' :: rest)⟩ := by
  obtain ⟨⟨nonempty, unquoted, short⟩, uncommented, chars⟩ := simple
  cases word with
  | nil => exact absurd rfl nonempty
  | cons c more =>
    obtain ⟨gap, punctuation⟩ := isGap_of_wordChar (chars c List.mem_cons_self)
    have open' : (c == '/' && (more ++ ' ' :: rest).head? == some '/') = false := by
      cases more with
      | nil => simp
      | cons d more =>
        refine Bool.eq_false_iff.2 fun both => uncommented ?_
        simp only [List.cons_append, List.head?_cons, Bool.and_eq_true, beq_iff_eq, Option.some.injEq] at both
        obtain ⟨rfl, rfl⟩ := both
        exact List.prefix_append ['/', '/'] more
    have skipped : skip false (c :: (more ++ ' ' :: rest)) = c :: (more ++ ' ' :: rest) := by
      rw [skip, gap, open']
      rfl
    have taken : (c :: (more ++ ' ' :: rest)).takeWhile isWordChar = c :: more := by
      rw [← List.cons_append, List.takeWhile_append_of_pos chars]
      simp [isWordChar, isGap]
    have dropped : (c :: (more ++ ' ' :: rest)).dropWhile isWordChar = ' ' :: rest := by
      rw [← List.cons_append, List.dropWhile_append_of_pos chars]
      simp [isWordChar, isGap]
    have whole : clip (c :: more) = c :: more := if_pos short
    rw [List.cons_append, scan, skipped]
    simp [show c ≠ '"' by simpa using unquoted, punctuation, taken, dropped, whole, left]

theorem scan_quote (text : Text) :
    scan ('"' :: text) =
      ⟨clip (text.takeWhile (· != '"')), left ((text.dropWhile (· != '"')).drop 1)⟩ := by
  have skipped : skip false ('"' :: text) = '"' :: text := by simp [skip, isGap]
  rw [scan, skipped]
  rfl

/-- Between quotes the scanner takes everything, and keeps as much as it does of any word. -/
theorem scan_between {word : Text} (clean : '"' ∉ word) (rest : Text) :
    scan ('"' :: (word ++ '"' :: rest)) = ⟨clip word, left rest⟩ := by
  have inside : ∀ c ∈ word, (c != '"') = true := by
    intro c member
    simpa using fun same : c = '"' => clean (same ▸ member)
  rw [scan_quote, List.takeWhile_append_of_pos inside, List.dropWhile_append_of_pos inside]
  simp

theorem scan_quoted {value : Text} (clean : '"' ∉ value) (short : Text.size value < lengthLimit) (rest : Text) :
    scan ('"' :: (value ++ '"' :: rest)) = ⟨value, left rest⟩ := by
  rw [scan_between clean, clip, if_pos short]

theorem scansWithin_some {text word rest : Text} (first : scan text = ⟨word, some rest⟩) (fuel : Nat) :
    scansWithin (fuel + 1) text = ⟨word, some rest⟩ :: scansWithin fuel rest := by
  rw [scansWithin, first]

theorem scansWithin_none {text word : Text} (last : scan text = ⟨word, none⟩) (fuel : Nat) :
    scansWithin (fuel + 1) text = [⟨word, none⟩] := by
  rw [scansWithin, last]

/-- A name that is a word as it stands. -/
def PlainName (name : Text) : Prop :=
  (∃ c rest, name = c :: rest ∧ c ≠ '"' ∧ c ≠ '/') ∧ (∀ c ∈ name, isWordChar c = true) ∧ Text.size name < lengthLimit

theorem PlainName.simple {name : Text} (plain : PlainName name) : Simple name := by
  obtain ⟨⟨c, more, rfl, unquoted, uncommented⟩, chars, short⟩ := plain
  refine ⟨⟨List.cons_ne_nil c more, by simpa using unquoted, short⟩, fun comment => ?_, chars⟩
  exact uncommented (List.cons_prefix_cons.1 comment).1.symm

theorem scan_of_plain {name : Text} (plain : PlainName name) (rest : Text) :
    scan (name ++ ' ' :: rest) = ⟨name, some (' ' :: rest)⟩ :=
  scan_of_simple plain.simple rest

end Token

theorem Line.words_of_plain {name : Text} (plain : Token.PlainName name) (rest : Text) :
    ∃ later, (Line.ofText (name ++ ' ' :: rest)).words = name :: later := by
  have nonempty : name.isEmpty = false := by
    obtain ⟨⟨c, more, rfl, _⟩, _⟩ := plain
    rfl
  have scans : Token.scans (name ++ ' ' :: rest) =
      ⟨name, some (' ' :: rest)⟩ :: Token.scansWithin (name ++ ' ' :: rest).length (' ' :: rest) := by
    rw [Token.scans, Token.scansWithin, Token.scan_of_plain plain]
  generalize Token.scansWithin _ _ = more at scans
  refine ⟨((more.map Token.Scan.word).takeWhile (! ·.isEmpty)).take (wordLimit - 1), ?_⟩
  simp [Line.ofText, scans, nonempty, wordLimit]

namespace Token

theorem size_within_le (limit : Nat) (word : Text) : Text.size (within limit word) ≤ limit := by
  induction word generalizing limit with
  | nil => simp [within]
  | cons c rest ih =>
    unfold within
    split
    · have less := ih (limit - c.utf8Size)
      rw [Text.size_cons]
      omega
    · simp

theorem size_clip_lt (word : Text) : Text.size (clip word) < lengthLimit := by
  unfold clip
  split
  · assumption
  · exact Nat.lt_of_le_of_lt (size_within_le _ word) (by decide)

theorem within_subset (limit : Nat) (word : Text) : within limit word ⊆ word := by
  induction word generalizing limit with
  | nil => simp [within]
  | cons c rest ih =>
    unfold within
    split
    · exact List.cons_subset_cons c (ih _)
    · simp

theorem clip_subset (word : Text) : clip word ⊆ word := by
  unfold clip
  split
  · exact List.Subset.refl word
  · exact within_subset _ word

theorem skip_subset (open' : Bool) (text : Text) : skip open' text ⊆ text := by
  induction text generalizing open' with
  | nil => cases open' <;> simp [skip]
  | cons c rest ih =>
    cases open' with
    | true => exact List.subset_cons_of_subset c (ih _)
    | false =>
      unfold skip
      split
      · exact List.subset_cons_of_subset c (ih _)
      · split
        · exact List.subset_cons_of_subset c (ih _)
        · exact List.Subset.refl _

theorem head?_within {limit : Nat} {word : Text} {c : Char} (first : (within limit word).head? = some c) :
    word.head? = some c := by
  cases word with
  | nil => simp [within] at first
  | cons d rest =>
    unfold within at first
    split at first
    · exact first
    · cases first

theorem head?_clip {word : Text} {c : Char} (first : (clip word).head? = some c) : word.head? = some c := by
  unfold clip at first
  split at first
  · exact first
  · exact head?_within first

theorem scan_unquoted (text : Text) : (scan text).word.head? ≠ some '"' := by
  intro quoted
  unfold scan at quoted
  cases skipped : skip false text with
  | nil =>
    rw [skipped] at quoted
    cases quoted
  | cons c rest =>
    rw [skipped] at quoted
    dsimp only at quoted
    split at quoted
    · have inside := List.all_eq_true.1 List.all_takeWhile _ (List.mem_of_head? (head?_clip quoted))
      simp at inside
    · rename_i other
      split at quoted
      · exact other (by simpa using quoted)
      · have first := head?_clip quoted
        rw [List.head?_takeWhile, List.head?_cons, Option.filter_some] at first
        split at first
        · exact other (by simpa using first)
        · cases first

/-- A word is shorter than the limit, and what is found in a text is a part of it. -/
structure Fits (text : Text) (scan : Scan) : Prop where
  short : Text.size scan.word < lengthLimit
  word : scan.word ⊆ text
  rest : ∀ rest, scan.rest = some rest → rest ⊆ text

theorem Fits.mono {text more : Text} {scan : Scan} (fits : Fits text scan) (part : text ⊆ more) : Fits more scan :=
  ⟨fits.short, List.Subset.trans fits.word part, fun rest there => List.Subset.trans (fits.rest rest there) part⟩

theorem left_subset {text rest : Text} (there : left text = some rest) : rest = text := by
  unfold left at there
  split at there
  · cases there
  · exact (Option.some.inj there).symm

theorem fits_scan (text : Text) : Fits text (scan text) := by
  unfold scan
  have part := skip_subset false text
  cases skipped : skip false text with
  | nil => exact ⟨by decide, by simp, by simp⟩
  | cons c rest =>
    rw [skipped] at part
    have later : rest ⊆ text := List.Subset.trans (List.subset_cons_self c rest) part
    dsimp only
    split
    · refine ⟨size_clip_lt _, ?_, ?_⟩
      · exact List.Subset.trans (clip_subset _) (List.Subset.trans (List.takeWhile_subset _) later)
      · intro after there
        rw [left_subset there]
        exact List.Subset.trans (List.drop_subset ..) (List.Subset.trans (List.dropWhile_subset _) later)
    · split
      · refine ⟨?_, ?_, ?_⟩
        · have small := c.utf8Size_le_four
          rw [Text.size_cons, Text.size_nil, lengthLimit]
          omega
        · simpa using part List.mem_cons_self
        · intro after there
          rw [left_subset there]
          exact later
      · refine ⟨size_clip_lt _, ?_, ?_⟩
        · exact List.Subset.trans (clip_subset _) (List.Subset.trans (List.takeWhile_subset _) part)
        · intro after there
          rw [left_subset there]
          exact List.Subset.trans (List.dropWhile_subset _) part

theorem fits_scansWithin (fuel : Nat) (text : Text) : ∀ scan ∈ scansWithin fuel text, Fits text scan := by
  induction fuel generalizing text with
  | zero => simp [scansWithin]
  | succ fuel ih =>
    have first := fits_scan text
    unfold scansWithin
    dsimp only
    split
    · simpa using first
    · rename_i rest there
      intro other member
      rcases List.mem_cons.1 member with rfl | later
      · exact first
      · exact (ih rest other later).mono (first.rest rest there)

theorem unquoted_of_mem (fuel : Nat) (text : Text) : ∀ scan ∈ scansWithin fuel text, scan.word.head? ≠ some '"' := by
  induction fuel generalizing text with
  | zero => simp [scansWithin]
  | succ fuel ih =>
    have first := scan_unquoted text
    unfold scansWithin
    dsimp only
    split
    · simpa using first
    · intro other member
      rcases List.mem_cons.1 member with rfl | later
      · exact first
      · exact ih _ other later

end Token

namespace Line

theorem fits_of_word {text word : Text} (member : word ∈ (ofText text).words) :
    Text.size word < Token.lengthLimit ∧ word ⊆ text := by
  obtain ⟨scan, there, rfl⟩ := List.mem_map.1 ((List.takeWhile_subset _) (List.mem_of_mem_take member))
  have fits := Token.fits_scansWithin _ _ scan there
  exact ⟨fits.short, fits.word⟩

theorem word_of_mem {text word : Text} (member : word ∈ (ofText text).words) : Token.Word word := by
  have kept := List.mem_of_mem_take member
  obtain ⟨scan, there, rfl⟩ := List.mem_map.1 ((List.takeWhile_subset _) kept)
  refine ⟨?_, ?_, (fits_of_word member).1⟩
  · simpa using List.all_eq_true.1 List.all_takeWhile _ kept
  · exact Token.unquoted_of_mem _ _ scan there

theorem word_mem {line : Line} {place : Nat} (there : place < line.count) : line.word place ∈ line.words := by
  rw [word, List.getD_eq_getElem?_getD, List.getElem?_eq_getElem there]
  exact List.getElem_mem there

theorem fits_word (text : Text) (place : Nat) :
    Text.size ((ofText text).word place) < Token.lengthLimit ∧ (ofText text).word place ⊆ text := by
  unfold word
  rw [List.getD_eq_getElem?_getD]
  cases there : (ofText text).words[place]? with
  | none => exact ⟨by decide, by simp⟩
  | some word => exact fits_of_word (List.mem_of_getElem? there)

theorem trim_subset (text : Text) : Text.trim text ⊆ text := by
  have start : Text.trimStart text ⊆ text := List.dropWhile_subset _
  intro c member
  have inner := List.dropWhile_subset _ (List.mem_reverse.1 member)
  exact start (List.mem_reverse.1 inner)

theorem tail_subset (text : Text) : (ofText text).tail ⊆ text := by
  unfold ofText
  dsimp only
  split
  · rename_i rest _ _ scans
    have first : ⟨_, some rest⟩ ∈ Token.scans text := scans ▸ List.mem_cons_self
    have fits := Token.fits_scansWithin _ _ _ first
    exact List.Subset.trans (trim_subset rest) (fits.rest rest rfl)
  · simp

end Line

end GameHost
