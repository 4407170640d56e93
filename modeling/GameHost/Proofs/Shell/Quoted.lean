import GameHost.Proofs.Shell.Script

/-!
Words between quotes. The splitter counts quotes and the scanner looks for the next one; on a line of quoted words
they agree on what is inside, so separators and comment marks there are text like any other.
-/
namespace GameHost

/-- A word that quotes can hold. -/
def Quotable (word : Text) : Prop := '"' ∉ word ∧ '\n' ∉ word

instance (word : Text) : Decidable (Quotable word) := inferInstanceAs (Decidable (_ ∧ _))

/-- A word between quotes. -/
def quotedWord (word : Text) : Text := '"' :: (word ++ ['"'])

/-- Words between quotes, with single spaces between them. -/
def quotedLine (words : List Text) : Text := Text.spaced (words.map quotedWord)

theorem quotedLine_one (word : Text) : quotedLine [word] = '"' :: (word ++ ['"']) := by
  simp [quotedLine, quotedWord, Text.spaced, List.intercalate]

theorem quotedLine_more (word next : Text) (words : List Text) :
    quotedLine (word :: next :: words) = '"' :: (word ++ '"' :: ' ' :: quotedLine (next :: words)) := by
  simp [quotedLine, quotedWord, Text.spaced, List.intercalate]

namespace Shell

theorem inert_of_quotable {word : Text} (quotable : Quotable word) : Inert true word := by
  intro c member
  have other : c ≠ '\n' := fun same => quotable.2 (same ▸ member)
  exact ⟨by simp [endsLine, other], fun same => quotable.1 (same ▸ member)⟩

/-- A quoted word opens a quote and closes it again. -/
theorem whole_quoted {word : Text} (quotable : Quotable word) (rest : Text) :
    whole false ('"' :: (word ++ '"' :: rest)) = whole false rest := by
  have inside : whole true (word ++ '"' :: rest) = whole true ('"' :: rest) :=
    whole_append (inert_of_quotable quotable) _
  calc
    whole false ('"' :: (word ++ '"' :: rest)) = whole true (word ++ '"' :: rest) := by simp [whole, endsLine]
    _ = whole true ('"' :: rest) := inside
    _ = whole false rest := by simp [whole, endsLine]

theorem whole_quotedLine {words : List Text} (quotable : ∀ word ∈ words, Quotable word) :
    whole false (quotedLine words) = true := by
  induction words with
  | nil => rfl
  | cons word words ih =>
    have first := quotable word List.mem_cons_self
    have later := ih fun other member => quotable other (List.mem_cons_of_mem _ member)
    cases words with
    | nil => rw [quotedLine_one, whole_quoted first, whole]
    | cons next words =>
      rw [quotedLine_more, whole_quoted first, ← later]
      simp [whole, endsLine]

end Shell

namespace Token

theorem scansWithin_gap (fuel : Nat) (text : Text) : scansWithin fuel (' ' :: text) = scansWithin fuel text := by
  cases fuel with
  | zero => rfl
  | succ fuel => rw [scansWithin, scansWithin, scan_gap]

theorem scansWithin_quotedLine {words : List Text} (clean : ∀ word ∈ words, '"' ∉ word) (nonempty : words ≠ [])
    {fuel : Nat} (enough : words.length ≤ fuel) :
    (scansWithin fuel (quotedLine words)).map Scan.word = words.map clip := by
  induction words generalizing fuel with
  | nil => exact absurd rfl nonempty
  | cons word words ih =>
    have first := clean word List.mem_cons_self
    obtain ⟨fuel, rfl⟩ := Nat.exists_eq_add_one_of_ne_zero (Nat.ne_zero_of_lt (Nat.lt_of_lt_of_le (Nat.succ_pos _) enough))
    cases words with
    | nil =>
      have last : scan (quotedLine [word]) = ⟨clip word, none⟩ := quotedLine_one word ▸ scan_between first []
      rw [scansWithin_none last]
      rfl
    | cons next words =>
      have later := ih (fun other member => clean other (List.mem_cons_of_mem _ member)) (List.cons_ne_nil _ _)
        (Nat.le_of_succ_le_succ enough)
      have scanned : scan (quotedLine (word :: next :: words)) =
          ⟨clip word, some (' ' :: quotedLine (next :: words))⟩ :=
        quotedLine_more word next words ▸ scan_between first (' ' :: quotedLine (next :: words))
      rw [scansWithin_some scanned, scansWithin_gap, List.map_cons, later]
      rfl

end Token

namespace Line

theorem length_le_quotedLine (words : List Text) : words.length ≤ (quotedLine words).length := by
  induction words with
  | nil => exact Nat.le_refl 0
  | cons word words ih =>
    cases words with
    | nil => simp [quotedLine_one]
    | cons next words =>
      rw [quotedLine_more]
      simp only [List.length_cons, List.length_append] at ih ⊢
      omega

/-- A line of quoted words has these words, clipped, up to the first that is empty and to the limit of words. -/
theorem words_quotedLine {words : List Text} (clean : ∀ word ∈ words, '"' ∉ word) :
    (ofText (quotedLine words)).words = ((words.map Token.clip).takeWhile (! ·.isEmpty)).take wordLimit := by
  cases words with
  | nil => rfl
  | cons word words =>
    have scanned := Token.scansWithin_quotedLine clean (List.cons_ne_nil _ _)
      (Nat.le_succ_of_le (length_le_quotedLine (word :: words)))
    rw [ofText, Token.scans]
    dsimp only
    rw [scanned]

theorem words_quotedLine_iff {words : List Text} (clean : ∀ word ∈ words, '"' ∉ word) :
    (ofText (quotedLine words)).words = words ↔
      words.length ≤ wordLimit ∧ ∀ word ∈ words, word ≠ [] ∧ Text.size word < Token.lengthLimit := by
  constructor
  · intro same
    constructor
    · rw [← same]
      exact List.length_take_le _ _
    · intro word member
      have held := word_of_mem (same.symm ▸ member : word ∈ (ofText (quotedLine words)).words)
      exact ⟨held.nonempty, held.short⟩
  · rintro ⟨few, fit⟩
    have kept : words.map Token.clip = words :=
      (List.map_congr_left fun word member => if_pos (fit word member).2).trans (List.map_id words)
    have full : words.takeWhile (! ·.isEmpty) = words :=
      List.takeWhile_eq_self_iff.2 fun word member => by simp [(fit word member).1]
    rw [words_quotedLine clean, kept, full, List.take_of_length_le few]

end Line

namespace Shell

variable {α : Type}

/-- A line of quoted words, queued on its own, is taken whole and leaves nothing behind. Its words are the ones that were
quoted exactly if none is empty, none too long and there are not too many. -/
theorem quoted_words_read_back {words : List Text} (quotable : ∀ word ∈ words, Quotable word) {s : Shell α}
    (idle : s.pending = []) (room : s.hasRoom (quotedLine words ++ ['\n']) = true) (source : Source) :
    (s.addText (quotedLine words ++ ['\n'])).nextLine = (some (quotedLine words), s) ∧
      ((s.accept (quotedLine words) source).line.words = words ↔
        words.length ≤ Line.wordLimit ∧ ∀ word ∈ words, word ≠ [] ∧ Text.size word < Token.lengthLimit) := by
  constructor
  · have split := splitLine_whole (whole_quotedLine quotable) []
    have queued : (quotedLine words ++ ['\n']).isEmpty = false := by simp
    rw [addText, if_pos room, nextLine]
    simp only [idle, List.nil_append, queued, split, Bool.false_eq_true, if_false]
    rw [← idle]
  · exact Line.words_quotedLine_iff fun word member => (quotable word member).1

/-- Words made of separators, comment marks, control characters and letters past ASCII. -/
def oddWords : List Text :=
  ["say".toList, "a; b // c".toList, " ".toList, "//".toList, ['\t', ';', '\r'], "{x}: 'ü' 日本".toList]

theorem odd_words_read_back :
    (∀ word ∈ oddWords, Quotable word) ∧ (empty .captured : Shell Unit).pending = [] ∧
      (empty .captured : Shell Unit).hasRoom (quotedLine oddWords ++ ['\n']) = true ∧
      ((empty .captured : Shell Unit).addText (quotedLine oddWords ++ ['\n'])).nextLine =
        (some (quotedLine oddWords), empty .captured) ∧
      ((empty .captured : Shell Unit).accept (quotedLine oddWords) .player).line.words = oddWords :=
  have quotable : ∀ word ∈ oddWords, Quotable word := by decide
  have room : (empty .captured : Shell Unit).hasRoom (quotedLine oddWords ++ ['\n']) = true := by decide
  have read := quoted_words_read_back quotable rfl room .player
  ⟨quotable, rfl, room, read.1, read.2.2 ⟨by decide, by decide⟩⟩

end Shell

end GameHost
