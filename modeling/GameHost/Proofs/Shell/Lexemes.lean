import GameHost.Proofs.Shell.Line
import GameHost.Proofs.Text.Utf8
import Mathlib.Data.List.Basic

/-!
The words of a text, told by the bytes it is written in. The grammar knows bytes only and scanning goes by characters;
every text is read by the one as it is by the other, down to where each word is cut off and what is left after it, so
that every cut falls between two characters.
-/
namespace GameHost
open Text (encode)

namespace Text

/-- A character below 128 is one byte, and of any other all bytes are above that. -/
theorem utf8EncodeChar_cases (c : Char) : c.toNat < 128 ∧ String.utf8EncodeChar c = [UInt8.ofNat c.toNat] ∨
    128 ≤ c.toNat ∧ ∀ b ∈ String.utf8EncodeChar c, 128 ≤ b.toNat := by
  have high {n : Nat} (least : 128 ≤ n) (most : n < 256) : 128 ≤ (UInt8.ofNat n).toNat := by
    rw [UInt8.toNat_ofNat', Nat.mod_eq_of_lt most]
    exact least
  by_cases ascii : c.toNat < 128
  · refine .inl ⟨ascii, ?_⟩
    simp only [String.utf8EncodeChar]
    exact if_pos (Nat.le_of_lt_succ ascii)
  · refine .inr ⟨Nat.le_of_not_lt ascii, ?_⟩
    simp only [String.utf8EncodeChar]
    rw [if_neg (by change ¬c.toNat ≤ 127; omega)]
    split
    · simp only [List.mem_cons, List.not_mem_nil, or_false]
      rintro b (rfl | rfl) <;> exact high (by omega) (by omega)
    split
    · simp only [List.mem_cons, List.not_mem_nil, or_false]
      rintro b (rfl | rfl | rfl) <;> exact high (by omega) (by omega)
    · simp only [List.mem_cons, List.not_mem_nil, or_false]
      rintro b (rfl | rfl | rfl | rfl) <;> exact high (by omega) (by omega)

@[simp] theorem encode_nil : encode [] = [] := rfl

theorem encode_cons (c : Char) (text : Text) : encode (c :: text) = String.utf8EncodeChar c ++ encode text :=
  List.flatMap_cons

@[simp] theorem encode_append (first later : Text) : encode (first ++ later) = encode first ++ encode later :=
  List.flatMap_append

theorem encode_injective {first other : Text} (same : encode first = encode other) : first = other := by
  rw [← decode_encode first, same, decode_encode]

theorem encode_cons_ascii {c : Char} (ascii : c.toNat < 128) (text : Text) :
    encode (c :: text) = UInt8.ofNat c.toNat :: encode text := by
  rcases utf8EncodeChar_cases c with ⟨_, one⟩ | ⟨above, _⟩
  · rw [encode_cons, one, List.singleton_append]
  · omega

/-- A byte below 128 stands for its character wherever it is found. -/
theorem char_of_byte {c : Char} {b : UInt8} (member : b ∈ String.utf8EncodeChar c) (ascii : b.toNat < 128) :
    c.toNat = b.toNat := by
  rcases utf8EncodeChar_cases c with ⟨low, one⟩ | ⟨_, high⟩
  · rw [one, List.mem_singleton] at member
    rw [member, UInt8.toNat_ofNat', Nat.mod_eq_of_lt (by omega)]
  · exact absurd (high b member) (by omega)

theorem notMem_encode {c : Char} {b : UInt8} (value : b.toNat = c.toNat) (ascii : c.toNat < 128) {text : Text}
    (absent : c ∉ text) : b ∉ encode text := by
  intro member
  obtain ⟨d, here, inside⟩ := List.mem_flatMap.1 member
  have same := (char_of_byte inside (by omega)).trans value
  exact absent (Char.toNat_inj.1 same ▸ here)

theorem head?_encode {text : Text} {b : UInt8} (first : (encode text).head? = some b) :
    ∃ c rest, text = c :: rest ∧ b ∈ String.utf8EncodeChar c := by
  cases text with
  | nil => cases first
  | cons c rest =>
    refine ⟨c, rest, rfl, ?_⟩
    rw [encode_cons] at first
    cases bytes : String.utf8EncodeChar c with
    | nil =>
      have some := String.length_utf8EncodeChar c
      have positive := c.utf8Size_pos
      rw [bytes, List.length_nil] at some
      omega
    | cons d more =>
      rw [bytes] at first
      cases first
      exact List.mem_cons_self

end Text

namespace Token

/-- The characters that are a word by themselves, as bytes. -/
def punctuationBytes : Bytes := [0x7B, 0x7D, 0x28, 0x29, 0x27, 0x3A]

def WordByte (b : UInt8) : Prop := 0x20 < b.toNat ∧ b ∉ punctuationBytes

/-- Gaps, and comments up to the newline that ends each. -/
inductive Spacing : Bytes → Prop where
  | none : Spacing []
  | gap {b : UInt8} {rest : Bytes} (low : b.toNat ≤ 0x20) (more : Spacing rest) : Spacing (b :: rest)
  | comment {body rest : Bytes} (inside : 0x0A ∉ body) (more : Spacing rest) :
      Spacing (0x2F :: 0x2F :: (body ++ 0x0A :: rest))

/-- There is no word: all is spacing, but for a comment perhaps that goes on to the end. -/
inductive Barren : Bytes → Prop where
  | spacing {bytes : Bytes} (spacing : Spacing bytes) : Barren bytes
  | comment {before body : Bytes} (spacing : Spacing before) (inside : 0x0A ∉ body) :
      Barren (before ++ 0x2F :: 0x2F :: body)

/-- The bytes begin with a word: what it holds, and what comes after it. -/
inductive Lexeme : Bytes → Bytes → Bytes → Prop where
  | quoted {content after : Bytes} (clean : 0x22 ∉ content) :
      Lexeme (0x22 :: (content ++ 0x22 :: after)) content after
  | unclosed {content : Bytes} (clean : 0x22 ∉ content) : Lexeme (0x22 :: content) content []
  | punctuation {b : UInt8} {after : Bytes} (member : b ∈ punctuationBytes) : Lexeme (b :: after) [b] after
  | bare {b : UInt8} {content after : Bytes} (bytes : ∀ d ∈ b :: content, WordByte d) (unquoted : b ≠ 0x22)
      (uncommented : ¬[0x2F, 0x2F] <+: b :: content) (maximal : ∀ d, after.head? = some d → ¬WordByte d) :
      Lexeme (b :: (content ++ after)) (b :: content) after

/-- The longest beginning of at most 1023 bytes that ends between characters. -/
structure Cut (content token : Bytes) : Prop where
  between : ∃ first later : Text, content = encode (first ++ later) ∧ token = encode first
  short : token.length ≤ 1023
  longest : ∀ first later : Text, content = encode (first ++ later) → (encode first).length ≤ 1023 →
    (encode first).length ≤ token.length

/-- What is kept of a word. -/
def Kept (content token : Bytes) : Prop := if content.length < 1024 then token = content else Cut content token

/-- The words of some bytes from left to right, each with the bytes that are left after it, if any are. Where no word
comes any more, an empty one with nothing after it stands for the end. -/
inductive Reads : Bytes → List (Bytes × Option Bytes) → Prop where
  | barren {bytes : Bytes} (barren : Barren bytes) : Reads bytes [([], none)]
  | last {before bytes content token : Bytes} (spacing : Spacing before) (lexeme : Lexeme bytes content [])
      (kept : Kept content token) : Reads (before ++ bytes) [(token, none)]
  | more {before bytes content after token : Bytes} {readings} (spacing : Spacing before)
      (lexeme : Lexeme bytes content after) (kept : Kept content token) (remains : after ≠ [])
      (later : Reads after readings) : Reads (before ++ bytes) ((token, some after) :: readings)

/-- The bytes after leading spacing. The flag says that a comment is open. -/
def skipBytes : Bool → Bytes → Bytes
  | _, [] => []
  | true, b :: rest => skipBytes (b != 0x0A) rest
  | false, b :: rest =>
    if b.toNat ≤ 0x20 then skipBytes false rest
    else if b = 0x2F ∧ rest.head? = some 0x2F then skipBytes true rest
    else b :: rest

theorem skipBytes_comment {body : Bytes} (inside : 0x0A ∉ body) (rest : Bytes) :
    skipBytes true (body ++ 0x0A :: rest) = skipBytes false rest := by
  induction body with
  | nil => rfl
  | cons b body ih =>
    rw [List.mem_cons, not_or] at inside
    rw [List.cons_append, skipBytes, bne_iff_ne.2 (Ne.symm inside.1)]
    exact ih inside.2

theorem skipBytes_open {body : Bytes} (inside : 0x0A ∉ body) : skipBytes true body = [] := by
  induction body with
  | nil => rfl
  | cons b body ih =>
    rw [List.mem_cons, not_or] at inside
    rw [skipBytes, bne_iff_ne.2 (Ne.symm inside.1)]
    exact ih inside.2

theorem Spacing.skip {before : Bytes} (spacing : Spacing before) (bytes : Bytes) :
    skipBytes false (before ++ bytes) = skipBytes false bytes := by
  induction spacing with
  | none => rfl
  | gap low _ ih => rw [List.cons_append, skipBytes, if_pos low, ih]
  | @comment body rest inside _ ih =>
    have slash : 0x0A ∉ (0x2F :: body : Bytes) := by simpa using inside
    have commented := skipBytes_comment slash (rest ++ bytes)
    simpa [skipBytes, ih] using commented

theorem Barren.skip {bytes : Bytes} (barren : Barren bytes) : skipBytes false bytes = [] := by
  cases barren with
  | spacing spacing => simpa [skipBytes] using spacing.skip []
  | @comment before body spacing inside =>
    have slash : 0x0A ∉ (0x2F :: body : Bytes) := by simpa using inside
    rw [spacing.skip]
    simpa [skipBytes] using skipBytes_open slash

theorem Lexeme.skip {bytes content after : Bytes} (lexeme : Lexeme bytes content after) :
    bytes ≠ [] ∧ skipBytes false bytes = bytes := by
  cases lexeme with
  | quoted clean | unclosed clean => exact ⟨List.cons_ne_nil _ _, by simp [skipBytes]⟩
  | @punctuation b after member =>
    refine ⟨List.cons_ne_nil _ _, ?_⟩
    have high : ¬b.toNat ≤ 0x20 ∧ b ≠ 0x2F := by
      simp only [punctuationBytes, List.mem_cons, List.not_mem_nil, or_false] at member
      rcases member with rfl | rfl | rfl | rfl | rfl | rfl <;> decide
    rw [skipBytes, if_neg high.1, if_neg fun both => high.2 both.1]
  | @bare b content after bytes _ uncommented maximal =>
    refine ⟨List.cons_ne_nil _ _, ?_⟩
    have high : ¬b.toNat ≤ 0x20 := Nat.not_le_of_lt (bytes b List.mem_cons_self).1
    rw [skipBytes, if_neg high, if_neg]
    rintro ⟨rfl, second⟩
    cases content with
    | nil => exact maximal _ second ⟨by decide, by decide⟩
    | cons d content =>
      cases second
      exact uncommented ⟨content, rfl⟩

/-- A run that goes on as far as it can is told by the bytes. -/
theorem run_unique {P : UInt8 → Prop} {run after other rest : Bytes} (all : ∀ b ∈ run, P b)
    (maximal : ∀ b, after.head? = some b → ¬P b) (all' : ∀ b ∈ other, P b)
    (maximal' : ∀ b, rest.head? = some b → ¬P b) (same : run ++ after = other ++ rest) :
    other = run ∧ rest = after := by
  induction run generalizing other with
  | nil =>
    cases other with
    | nil => exact ⟨rfl, same.symm⟩
    | cons b other =>
      have first : after.head? = some b := congrArg List.head? same
      exact absurd (all' b List.mem_cons_self) (maximal b first)
  | cons b run ih =>
    cases other with
    | nil =>
      have first : rest.head? = some b := (congrArg List.head? same).symm
      exact absurd (all b List.mem_cons_self) (maximal' b first)
    | cons d other =>
      obtain ⟨rfl, later⟩ := List.cons.inj same
      obtain ⟨rfl, rfl⟩ := ih (fun d member => all d (List.mem_cons_of_mem b member))
        (fun d member => all' d (List.mem_cons_of_mem b member)) later
      exact ⟨rfl, rfl⟩

theorem Lexeme.unique {bytes content after other rest : Bytes} (lexeme : Lexeme bytes content after)
    (again : Lexeme bytes other rest) : other = content ∧ rest = after := by
  have quote {b : UInt8} (member : b ∈ punctuationBytes) : b ≠ 0x22 := by
    rintro rfl
    revert member
    decide
  generalize same : bytes = more at again
  cases lexeme with
  | quoted clean =>
    cases again with
    | quoted other =>
      have inside {content : Bytes} (clean : 0x22 ∉ content) : ∀ b ∈ content, b ≠ 0x22 :=
        fun b member quote => clean (quote ▸ member)
      have ended {after : Bytes} : ∀ b, (0x22 :: after).head? = some b → ¬b ≠ 0x22 := by simp
      obtain ⟨rfl, tail⟩ := run_unique (inside clean) ended (inside other) ended (List.cons.inj same).2
      exact ⟨rfl, (List.cons.inj tail).2⟩
    | unclosed other =>
      refine absurd ?_ other
      rw [← (List.cons.inj same).2]
      simp
    | punctuation member => exact absurd (List.cons.inj same).1.symm (quote member)
    | bare _ unquoted _ _ => exact absurd (List.cons.inj same).1.symm unquoted
  | unclosed clean =>
    cases again with
    | quoted other =>
      refine absurd ?_ clean
      rw [(List.cons.inj same).2]
      simp
    | unclosed other => exact ⟨(List.cons.inj same).2.symm, rfl⟩
    | punctuation member => exact absurd (List.cons.inj same).1.symm (quote member)
    | bare _ unquoted _ _ => exact absurd (List.cons.inj same).1.symm unquoted
  | punctuation member =>
    cases again with
    | quoted _ | unclosed _ => exact absurd (List.cons.inj same).1 (quote member)
    | punctuation _ =>
      obtain ⟨rfl, rfl⟩ := List.cons.inj same
      exact ⟨rfl, rfl⟩
    | bare bytes _ _ _ =>
      refine absurd ?_ (bytes _ List.mem_cons_self).2
      rwa [← (List.cons.inj same).1]
  | @bare b content after bytes unquoted uncommented maximal =>
    cases again with
    | quoted _ | unclosed _ => exact absurd (List.cons.inj same).1 unquoted
    | punctuation member =>
      refine absurd ?_ (bytes _ List.mem_cons_self).2
      rwa [(List.cons.inj same).1]
    | bare bytes' _ _ maximal' => exact run_unique bytes maximal bytes' maximal' same

theorem Kept.unique {content token other : Bytes} (kept : Kept content token) (again : Kept content other) :
    other = token := by
  unfold Kept at kept again
  split at kept
  · rename_i short
    rw [if_pos short] at again
    rw [kept, again]
  · rename_i long
    rw [if_neg long] at again
    obtain ⟨first, later, split, rfl⟩ := kept.between
    obtain ⟨first', later', split', rfl⟩ := again.between
    have same : (encode first').length = (encode first).length :=
      Nat.le_antisymm (kept.longest _ _ split' again.short) (again.longest _ _ split kept.short)
    rw [Text.encode_append] at split split'
    exact (List.append_inj (split'.symm.trans split) same).1

theorem Reads.unique {bytes : Bytes} {readings others : List (Bytes × Option Bytes)} (reads : Reads bytes readings)
    (again : Reads bytes others) : others = readings := by
  have start {before bytes content after before' bytes' : Bytes} (spacing : Spacing before)
      (lexeme : Lexeme bytes content after) (spacing' : Spacing before') (same : before ++ bytes = before' ++ bytes') :
      skipBytes false bytes' = bytes := by
    rw [← spacing'.skip, ← same, spacing.skip, lexeme.skip.2]
  have barren {before bytes content after : Bytes} (spacing : Spacing before) (lexeme : Lexeme bytes content after) :
      ¬Barren (before ++ bytes) := by
    intro barren
    have none := barren.skip
    rw [spacing.skip, lexeme.skip.2] at none
    exact lexeme.skip.1 none
  induction reads generalizing others with
  | barren empty =>
    cases again with
    | barren _ => rfl
    | last spacing lexeme _ | more spacing lexeme _ _ _ => exact absurd empty (barren spacing lexeme)
  | @last before bytes _ _ spacing lexeme kept =>
    generalize same : before ++ bytes = whole at again
    cases again with
    | barren empty => exact absurd (same ▸ empty) (barren spacing lexeme)
    | last spacing' lexeme' kept' =>
      have found := start spacing lexeme spacing' same
      rw [lexeme'.skip.2] at found
      subst found
      obtain ⟨rfl, _⟩ := lexeme.unique lexeme'
      rw [kept.unique kept']
    | more spacing' lexeme' _ remains _ =>
      have found := start spacing lexeme spacing' same
      rw [lexeme'.skip.2] at found
      subst found
      exact absurd (lexeme.unique lexeme').2 remains
  | @more before bytes _ _ _ _ spacing lexeme kept remains _ ih =>
    generalize same : before ++ bytes = whole at again
    cases again with
    | barren empty => exact absurd (same ▸ empty) (barren spacing lexeme)
    | last spacing' lexeme' _ =>
      have found := start spacing lexeme spacing' same
      rw [lexeme'.skip.2] at found
      subst found
      exact absurd (lexeme'.unique lexeme).2 remains
    | more spacing' lexeme' kept' _ later =>
      have found := start spacing lexeme spacing' same
      rw [lexeme'.skip.2] at found
      subst found
      obtain ⟨rfl, rfl⟩ := lexeme.unique lexeme'
      rw [kept.unique kept', ih later]

theorem ofNat_toNat_of_ascii {c : Char} (ascii : c.toNat < 128) : (UInt8.ofNat c.toNat).toNat = c.toNat := by
  rw [UInt8.toNat_ofNat', Nat.mod_eq_of_lt (by omega)]

/-- The punctuation characters are the punctuation bytes. -/
theorem punctuation_iff {c : Char} {b : UInt8} (value : c.toNat = b.toNat) :
    isPunctuation c = true ↔ b ∈ punctuationBytes := by
  have spelled (d : Char) (e : UInt8) (code : d.toNat = e.toNat) : c = d ↔ b = e := by
    rw [← Char.toNat_inj, value, code, UInt8.toNat_inj]
  simp only [isPunctuation, punctuationBytes, Bool.or_eq_true, beq_iff_eq, List.mem_cons, List.not_mem_nil, or_false,
    or_assoc, spelled '{' 0x7B rfl, spelled '}' 0x7D rfl, spelled '(' 0x28 rfl, spelled ')' 0x29 rfl,
    spelled '\'' 0x27 rfl, spelled ':' 0x3A rfl]

theorem wordByte_of_wordChar {c : Char} (wordChar : isWordChar c = true) :
    ∀ b ∈ String.utf8EncodeChar c, WordByte b := by
  intro b member
  obtain ⟨gap, punctuation⟩ := isGap_of_wordChar wordChar
  by_cases ascii : b.toNat < 128
  · have value := Text.char_of_byte member ascii
    refine ⟨?_, fun mark => ?_⟩
    · simpa [isGap, value] using gap
    · rw [(punctuation_iff value).2 mark] at punctuation
      cases punctuation
  · have low : (punctuationBytes.all fun d => d.toNat < 128) = true := by decide
    exact ⟨by omega, fun mark => ascii (of_decide_eq_true (List.all_eq_true.1 low b mark))⟩

theorem ascii_of_not_wordChar {c : Char} (other : isWordChar c = false) :
    c.toNat < 128 ∧ ¬WordByte (UInt8.ofNat c.toNat) := by
  have either : isGap c = true ∨ isPunctuation c = true := by
    cases gap : isGap c <;> simp_all [isWordChar]
  rcases either with gap | punctuation
  · have low : c.toNat ≤ 32 := by simpa [isGap] using gap
    refine ⟨by omega, fun word => ?_⟩
    have high := word.1
    rw [ofNat_toNat_of_ascii (by omega)] at high
    omega
  · have ascii : c.toNat < 128 := by
      simp only [isPunctuation, Bool.or_eq_true, beq_iff_eq] at punctuation
      rcases punctuation with ((((rfl | rfl) | rfl) | rfl) | rfl) | rfl <;> decide
    exact ⟨ascii, fun word => word.2 ((punctuation_iff (ofNat_toNat_of_ascii ascii).symm).1 punctuation)⟩

theorem Spacing.append {first later : Bytes} (spacing : Spacing first) (more : Spacing later) :
    Spacing (first ++ later) := by
  induction spacing with
  | none => exact more
  | gap low _ ih => exact .gap low ih
  | @comment body rest inside _ ih =>
    have := Spacing.comment inside ih
    simpa using this

theorem Barren.after {before bytes : Bytes} (spacing : Spacing before) (barren : Barren bytes) :
    Barren (before ++ bytes) := by
  cases barren with
  | spacing more => exact .spacing (spacing.append more)
  | comment more inside =>
    rw [← List.append_assoc]
    exact .comment (spacing.append more) inside

theorem skip_comment (text : Text) : ∃ body, '\n' ∉ body ∧ (text = body ∧ skip true text = [] ∨
    ∃ rest, text = body ++ '\n' :: rest ∧ skip true text = skip false rest) := by
  induction text with
  | nil => exact ⟨[], List.not_mem_nil, .inl ⟨rfl, rfl⟩⟩
  | cons c text ih =>
    by_cases newline : c = '\n'
    · subst newline
      exact ⟨[], List.not_mem_nil, .inr ⟨text, rfl, rfl⟩⟩
    · obtain ⟨body, inside, outcome⟩ := ih
      have same : skip true (c :: text) = skip true text := by rw [skip, bne_iff_ne.2 newline]
      refine ⟨c :: body, by simpa [Ne.symm newline] using inside, ?_⟩
      rw [same]
      rcases outcome with ⟨rfl, none⟩ | ⟨rest, rfl, some⟩
      · exact .inl ⟨rfl, none⟩
      · exact .inr ⟨rest, rfl, some⟩

theorem clip_single (c : Char) : clip [c] = [c] := by
  have small := c.utf8Size_le_four
  rw [clip, if_pos]
  simp only [Text.size_cons, Text.size_nil, lengthLimit]
  omega

/-- There is no word in a text, or it comes after some spacing. -/
theorem skip_cases (text : Text) : skip false text = [] ∧ Barren (encode text) ∨
    ∃ before c rest, skip false text = c :: rest ∧ text = before ++ c :: rest ∧ Spacing (encode before) ∧
      isGap c = false ∧ ¬(c = '/' ∧ rest.head? = some '/') := by
  -- a comment is skipped as a whole, so the induction is on the length
  induction length : text.length using Nat.strong_induction_on generalizing text with
  | _ size ih =>
    have after (before : Text) {rest : Text} (spacing : Spacing (encode before)) (split : text = before ++ rest)
        (shorter : before ≠ []) (same : skip false text = skip false rest) : skip false text = [] ∧ Barren (encode text) ∨
        ∃ before c rest, skip false text = c :: rest ∧ text = before ++ c :: rest ∧ Spacing (encode before) ∧
          isGap c = false ∧ ¬(c = '/' ∧ rest.head? = some '/') := by
      have less : rest.length < size := by
        have some := List.length_pos_iff.2 shorter
        rw [← length, split, List.length_append]
        omega
      rw [same]
      rcases ih _ less rest rfl with ⟨none, barren⟩ | ⟨more, c, last, found, rfl, spaced, start⟩
      · exact .inl ⟨none, by rw [split, Text.encode_append]; exact barren.after spacing⟩
      · refine .inr ⟨before ++ more, c, last, found, by rw [split, List.append_assoc], ?_, start⟩
        rw [Text.encode_append]
        exact spacing.append spaced
    cases text with
    | nil => exact .inl ⟨rfl, .spacing .none⟩
    | cons c rest =>
      by_cases gap : isGap c = true
      · have low : c.toNat ≤ 32 := by simpa [isGap] using gap
        have ascii : c.toNat < 128 := by omega
        refine after [c] ?_ rfl (List.cons_ne_nil _ _) (by rw [skip, if_pos gap])
        rw [Text.encode_cons_ascii ascii]
        exact .gap (by rw [ofNat_toNat_of_ascii ascii]; exact low) .none
      by_cases comment : c = '/' ∧ rest.head? = some '/'
      · obtain ⟨rfl, second⟩ := comment
        obtain ⟨rest, rfl⟩ : ∃ more, rest = '/' :: more := by
          cases rest with
          | nil => cases second
          | cons d more =>
            cases second
            exact ⟨more, rfl⟩
        have opened : skip false ('/' :: '/' :: rest) = skip true rest := by simp [skip, isGap]
        obtain ⟨body, inside, outcome⟩ := skip_comment rest
        have absent : 0x0A ∉ encode body := Text.notMem_encode (c := '\n') rfl (by decide) inside
        rcases outcome with ⟨rfl, none⟩ | ⟨last, rfl, some⟩
        · exact .inl ⟨opened.trans none, .comment .none absent⟩
        · refine after ('/' :: '/' :: (body ++ ['\n'])) ?_ (by simp) (List.cons_ne_nil _ _) (opened.trans some)
          have spacing : Spacing (0x2F :: 0x2F :: (encode body ++ 0x0A :: [])) := .comment absent .none
          have spelled : encode ('/' :: '/' :: (body ++ ['\n'])) = 0x2F :: 0x2F :: (encode body ++ 0x0A :: []) := by
            rw [Text.encode_cons_ascii (by decide), Text.encode_cons_ascii (by decide), Text.encode_append]
            rfl
          rwa [spelled]
      · refine .inr ⟨[], c, rest, ?_, rfl, .none, by simpa using gap, comment⟩
        rw [skip, if_neg gap, if_neg (by simpa using comment)]

theorem prefix_within {limit : Nat} {first word : Text} (start : first <+: word) (fits : Text.size first ≤ limit) :
    first <+: within limit word := by
  induction word generalizing limit first with
  | nil => exact start
  | cons c word ih =>
    cases first with
    | nil => exact List.nil_prefix
    | cons d first =>
      obtain ⟨rfl, later⟩ := List.cons_prefix_cons.1 start
      rw [Text.size_cons] at fits
      rw [within, if_pos (by omega)]
      exact List.cons_prefix_cons.2 ⟨rfl, ih later (by omega)⟩

theorem within_prefix (limit : Nat) (word : Text) : within limit word <+: word := by
  induction word generalizing limit with
  | nil => exact List.prefix_rfl
  | cons c word ih =>
    unfold within
    split
    · exact List.cons_prefix_cons.2 ⟨rfl, ih _⟩
    · exact List.nil_prefix

/-- What is kept of a word of characters is what is kept of its bytes. -/
theorem kept_clip (word : Text) : Kept (encode word) (encode (clip word)) := by
  unfold Kept clip lengthLimit
  rw [Text.length_encode]
  split
  · rfl
  · obtain ⟨later, whole⟩ := within_prefix 1023 word
    refine ⟨⟨within 1023 word, later, by rw [whole], rfl⟩, ?_, ?_⟩
    · rw [Text.length_encode]
      exact size_within_le 1023 word
    · intro first later split short
      rw [Text.length_encode] at short ⊢
      rw [Text.length_encode]
      have start : first <+: word := ⟨later, (Text.encode_injective split).symm⟩
      obtain ⟨more, longer⟩ := prefix_within start short
      rw [← longer, Text.size_append]
      exact Nat.le_add_right _ _

theorem left_eq (text : Text) : left text = none ∧ text = [] ∨ left text = some text ∧ text ≠ [] := by
  cases text with
  | nil => exact .inl ⟨rfl, rfl⟩
  | cons c rest => exact .inr ⟨rfl, List.cons_ne_nil c rest⟩

theorem lexeme_quoted (rest : Text) : Lexeme (encode ('"' :: rest)) (encode (rest.takeWhile (· != '"')))
    (encode ((rest.dropWhile (· != '"')).drop 1)) := by
  have clean : 0x22 ∉ encode (rest.takeWhile (· != '"')) := by
    refine Text.notMem_encode (c := '"') rfl (by decide) fun member => ?_
    have other := List.all_eq_true.1 List.all_takeWhile _ member
    simp at other
  have parts := List.takeWhile_append_dropWhile (p := (· != '"')) (l := rest)
  rw [show encode ('"' :: rest) = 0x22 :: encode rest from Text.encode_cons_ascii (by decide) rest]
  cases ended : rest.dropWhile (· != '"') with
  | nil =>
    rw [ended, List.append_nil] at parts
    rw [parts] at clean ⊢
    exact .unclosed clean
  | cons d after =>
    have closing : d = '"' := by
      have first := List.head?_dropWhile_not (· != '"') rest
      rw [ended] at first
      simpa using first
    have whole : encode rest = encode (rest.takeWhile (· != '"')) ++ 0x22 :: encode after := by
      rw [ended, closing] at parts
      conv_lhs => rw [← parts]
      rw [Text.encode_append, Text.encode_cons_ascii (by decide)]
      rfl
    rw [whole]
    exact .quoted clean

theorem lexeme_punctuation {c : Char} (punctuation : isPunctuation c = true) (rest : Text) :
    Lexeme (encode (c :: rest)) (encode [c]) (encode rest) := by
  have ascii : c.toNat < 128 := (ascii_of_not_wordChar (by simp [isWordChar, punctuation])).1
  have value := (ofNat_toNat_of_ascii ascii).symm
  rw [Text.encode_cons_ascii ascii, Text.encode_cons_ascii ascii]
  exact .punctuation ((punctuation_iff value).1 punctuation)

theorem slashes_of_encode {text : Text} (start : [0x2F, 0x2F] <+: encode text) : ['/', '/'] <+: text := by
  have slash {text : Text} {more : Bytes} (bytes : encode text = 0x2F :: more) :
      ∃ rest, text = '/' :: rest ∧ encode rest = more := by
    obtain ⟨c, rest, rfl, member⟩ := Text.head?_encode (congrArg List.head? bytes)
    obtain rfl : c = '/' := Char.toNat_inj.1 (Text.char_of_byte member (by decide))
    rw [Text.encode_cons_ascii (by decide)] at bytes
    exact ⟨rest, rfl, (List.cons.inj bytes).2⟩
  obtain ⟨more, bytes⟩ := start
  obtain ⟨rest, rfl, tail⟩ := slash bytes.symm
  obtain ⟨rest, rfl, _⟩ := slash tail
  exact List.prefix_append ['/', '/'] rest

theorem lexeme_bare {c : Char} {rest : Text} (wordChar : isWordChar c = true) (unquoted : c ≠ '"')
    (uncommented : ¬(c = '/' ∧ rest.head? = some '/')) : Lexeme (encode (c :: rest))
      (encode (c :: rest.takeWhile isWordChar)) (encode (rest.dropWhile isWordChar)) := by
  have parts := List.takeWhile_append_dropWhile (p := isWordChar) (l := rest)
  have all : ∀ b ∈ encode (c :: rest.takeWhile isWordChar), WordByte b := by
    intro b member
    obtain ⟨d, here, inside⟩ := List.mem_flatMap.1 member
    rw [← List.takeWhile_cons_of_pos wordChar] at here
    exact wordByte_of_wordChar (List.all_eq_true.1 List.all_takeWhile d here) b inside
  have maximal : ∀ d, (encode (rest.dropWhile isWordChar)).head? = some d → ¬WordByte d := by
    intro d head
    obtain ⟨e, more, ended, member⟩ := Text.head?_encode head
    have stop := List.head?_dropWhile_not isWordChar rest
    rw [ended] at stop
    obtain ⟨ascii, other⟩ := ascii_of_not_wordChar stop
    rcases Text.utf8EncodeChar_cases e with ⟨_, one⟩ | ⟨above, _⟩
    · rw [one, List.mem_singleton] at member
      exact member ▸ other
    · omega
  have plain : ¬[0x2F, 0x2F] <+: encode (c :: rest.takeWhile isWordChar) := by
    intro start
    obtain ⟨one, more⟩ := List.cons_prefix_cons.1 (slashes_of_encode start)
    obtain ⟨_, second⟩ := more.trans (List.takeWhile_prefix isWordChar)
    exact uncommented ⟨one.symm, congrArg List.head? second.symm⟩
  have whole : encode (c :: rest) = encode (c :: rest.takeWhile isWordChar) ++ encode (rest.dropWhile isWordChar) := by
    rw [← Text.encode_append, List.cons_append, parts]
  rw [whole]
  cases bytes : encode (c :: rest.takeWhile isWordChar) with
  | nil =>
    have none := Text.length_encode (c :: rest.takeWhile isWordChar)
    have wide := c.utf8Size_pos
    rw [bytes, Text.size_cons, List.length_nil] at none
    omega
  | cons b content =>
    rw [bytes] at all plain
    refine .bare all ?_ plain maximal
    rintro rfl
    obtain ⟨_, _, same, member⟩ := Text.head?_encode (congrArg List.head? bytes)
    obtain ⟨rfl, _⟩ := List.cons.inj same
    exact unquoted (Char.toNat_inj.1 (Text.char_of_byte member (by decide)))

/-- A scan of a text finds no word, or the word that the bytes of the text begin with after some spacing. -/
theorem scan_cases (text : Text) : scan text = ⟨[], none⟩ ∧ Barren (encode text) ∨
    ∃ before c rest content after, text = before ++ c :: rest ∧ Spacing (encode before) ∧ after <:+ rest ∧
      Lexeme (encode (c :: rest)) (encode content) (encode after) ∧ scan text = ⟨clip content, left after⟩ := by
  rcases skip_cases text with ⟨none, barren⟩ | ⟨before, c, rest, found, split, spacing, gap, comment⟩
  · exact .inl ⟨by rw [scan, none], barren⟩
  refine .inr ⟨before, c, rest, ?_⟩
  rw [scan, found]
  dsimp only
  by_cases quote : c = '"'
  · subst quote
    exact ⟨_, _, split, spacing, (List.drop_suffix 1 _).trans (List.dropWhile_suffix _), lexeme_quoted rest, if_pos rfl⟩
  rw [if_neg (by simpa using quote)]
  by_cases punctuation : isPunctuation c = true
  · have short := clip_single c
    refine ⟨[c], rest, split, spacing, List.suffix_refl rest, lexeme_punctuation punctuation rest, ?_⟩
    rw [if_pos punctuation, short]
  · have wordChar : isWordChar c = true := by simp [isWordChar, gap, punctuation]
    refine ⟨_, _, split, spacing, List.dropWhile_suffix _, lexeme_bare wordChar quote comment, ?_⟩
    rw [if_neg punctuation, List.takeWhile_cons_of_pos wordChar, List.dropWhile_cons_of_pos wordChar]

/-- Scanning again and again, each time what the time before left, which is a shorter end of the text, until nothing
is left. -/
inductive Repeats : Text → List Scan → Prop where
  | last {text : Text} (none : (scan text).rest = none) : Repeats text [scan text]
  | more {text taken rest : Text} {scans : List Scan} (some : (scan text).rest = some rest) (shorter : taken ≠ [])
      (split : text = taken ++ rest) (later : Repeats rest scans) : Repeats text (scan text :: scans)

/-- A scan in bytes. -/
def Scan.bytes (scan : Scan) : Bytes × Option Bytes := (encode scan.word, scan.rest.map encode)

theorem repeats_scansWithin {fuel : Nat} {text : Text} (enough : text.length < fuel) :
    Repeats text (scansWithin fuel text) ∧ Reads (encode text) ((scansWithin fuel text).map Scan.bytes) := by
  induction fuel generalizing text with
  | zero => exact absurd enough (Nat.not_lt_zero _)
  | succ fuel ih =>
    rcases scan_cases text with ⟨found, barren⟩ | ⟨before, c, rest, content, after, split, spacing, ⟨inside, ends⟩, lexeme, found⟩
    · rw [scansWithin_none found]
      exact ⟨found ▸ .last (by rw [found]), .barren barren⟩
    have bytes : encode text = encode before ++ encode (c :: rest) := by rw [split, Text.encode_append]
    rcases left_eq after with ⟨none, rfl⟩ | ⟨some, remains⟩
    · rw [none] at found
      rw [scansWithin_none found, bytes]
      exact ⟨found ▸ .last (by rw [found]), .last spacing lexeme (kept_clip content)⟩
    · rw [some] at found
      have whole : text = (before ++ c :: inside) ++ after := by rw [split, ← ends]; simp
      have less : after.length < fuel := by
        rw [whole, List.length_append, List.length_append, List.length_cons] at enough
        omega
      obtain ⟨repeats, reads⟩ := ih less
      rw [scansWithin_some found, bytes]
      refine ⟨found ▸ .more (by rw [found]) (by simp) whole repeats, .more spacing lexeme (kept_clip content) ?_ reads⟩
      rw [← Text.encode_nil]
      exact fun none => remains (Text.encode_injective none)

/-- Scanning comes to an end with every text, and finds exactly what the grammar of bytes reads in it. -/
theorem scans_read_grammar (text : Text) : Repeats text (scans text) ∧
    ∀ readings, Reads (encode text) readings ↔ readings = (scans text).map Scan.bytes := by
  obtain ⟨repeats, reads⟩ := repeats_scansWithin (Nat.lt_succ_self text.length)
  exact ⟨repeats, fun readings => ⟨fun others => reads.unique others, fun same => same ▸ reads⟩⟩

end Token

end GameHost
