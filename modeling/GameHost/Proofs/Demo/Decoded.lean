import GameHost.Proofs.Demo.ReadBack
import GameHost.Proofs.Message.Grammar

/-!
What the bytes of a demo are: after the first line whole frames, and a tail that begins with none. A reader that stands
before any bytes reads the frame that they begin with. If they begin with none, it comes to an end, or there is a length
that no frame can have.
-/
namespace GameHost.Demo

/-- What comes after the first line. -/
def body (bytes : Bytes) : Bytes := (bytes.dropWhile (· != 10)).drop 1

/-- The number that bytes begin with, if it is wholly there, and the bytes after it. -/
def word? (bytes : Bytes) : Option (UInt32 × Bytes) :=
  if 4 ≤ bytes.length then some (Bytes.toWord32 (bytes.take 4), bytes.drop 4) else none

/-- A length that a frame can have. -/
def Possible (length : Int32) : Prop := 0 ≤ length.toInt ∧ length.toInt ≤ messageLimit

instance (length : Int32) : Decidable (Possible length) := inferInstanceAs (Decidable (_ ∧ _))

/-- The length that bytes begin with, if no frame can have it. -/
def wrongLength? (bytes : Bytes) : Option Int32 :=
  ((word? bytes).map fun found => found.1.toInt32).filter fun length => ¬ Possible length

/-- The frame that bytes begin with, if it is wholly there, and the bytes after it. -/
def split? (bytes : Bytes) : Option (Frame × Bytes) := do
  let (word, bytes) ← word? bytes
  let (pitch, bytes) ← word? bytes
  let (yaw, bytes) ← word? bytes
  let (roll, bytes) ← word? bytes
  let length := word.toInt32
  if Possible length ∧ length.toNatClampNeg ≤ bytes.length then
    return (⟨⟨⟨pitch⟩, ⟨yaw⟩, ⟨roll⟩⟩, bytes.take length.toNatClampNeg⟩, bytes.drop length.toNatClampNeg)
  else none

/-- The fault of a length that no frame can have. -/
def lengthFault (length : Int32) : Fault :=
  if Int32.ofNat messageLimit < length then .frameTooLong length else .frameNegative length

theorem word?_eq_some {bytes after : Bytes} {word : UInt32} :
    word? bytes = some (word, after) ↔ bytes = Bytes.ofWord32 word ++ after := by
  have number : (Bytes.ofWord32 word).length = 4 := Bytes.length_ofNat 4 _
  unfold word?
  constructor
  · intro found
    split at found
    · rename_i whole
      cases found
      rw [Bytes.ofWord32_toWord32 (List.length_take_of_le whole), List.take_append_drop]
    · cases found
  · rintro rfl
    simp [number]

theorem word?_of_le {bytes : Bytes} (enough : 4 ≤ bytes.length) : ∃ word, word? bytes = some (word, bytes.drop 4) :=
  ⟨_, if_pos enough⟩

theorem possible_ofNat {n : Nat} (small : n < 2 ^ 31) : Possible (Int32.ofNat n) ↔ n ≤ messageLimit := by
  rw [Possible, Int32.toInt_ofNat_of_lt small]
  omega

theorem possible_iff {length : Int32} : Possible length ↔ ¬ Int32.ofNat messageLimit < length ∧ ¬ length < 0 := by
  have limit : (Int32.ofNat messageLimit).toInt = messageLimit := Int32.toInt_ofNat_of_lt (by decide)
  rw [Possible, Int32.lt_iff_toInt_lt, Int32.lt_iff_toInt_lt, limit, Int32.toInt_zero]
  omega

theorem Possible.toNatClampNeg_le {length : Int32} (possible : Possible length) : length.toNatClampNeg ≤ messageLimit := by
  rw [← Int32.toNat_toInt]
  exact Int.toNat_le.2 possible.2

theorem Possible.ofNat_toNatClampNeg {length : Int32} (possible : Possible length) :
    Int32.ofNat length.toNatClampNeg = length := by
  have small : length.toNatClampNeg < 2 ^ 31 := Nat.lt_of_le_of_lt possible.toNatClampNeg_le (by decide)
  rw [← Int32.toInt_inj, Int32.toInt_ofNat_of_lt small, ← Int32.toNat_toInt, Int.toNat_of_nonneg possible.1]

/-- Bytes begin with a frame exactly if they are those that it is written as, with more after them. -/
theorem split?_eq_some {bytes after : Bytes} {frame : Frame} :
    split? bytes = some (frame, after) ↔ bytes = frame.encode ++ after ∧ frame.data.length ≤ messageLimit := by
  constructor
  · intro split
    obtain ⟨⟨word, _⟩, first, split⟩ := Option.bind_eq_some_iff.1 split
    obtain ⟨⟨pitch, _⟩, second, split⟩ := Option.bind_eq_some_iff.1 split
    obtain ⟨⟨yaw, _⟩, third, split⟩ := Option.bind_eq_some_iff.1 split
    obtain ⟨⟨roll, rest⟩, fourth, split⟩ := Option.bind_eq_some_iff.1 split
    simp only [word?_eq_some] at first second third fourth
    dsimp only at split
    split at split
    · rename_i fits
      obtain ⟨possible, enough⟩ := fits
      cases split
      have count : (rest.take word.toInt32.toNatClampNeg).length = word.toInt32.toNatClampNeg :=
        List.length_take_of_le enough
      refine ⟨?_, ?_⟩
      · rw [encode_append, count, possible.ofNat_toNatClampNeg, List.take_append_drop, first, second, third, fourth]
        rfl
      · dsimp only
        rw [count]
        exact possible.toNatClampNeg_le
    · cases split
  · rintro ⟨rfl, short⟩
    have small : frame.data.length < 2 ^ 31 := Nat.lt_of_le_of_lt short (by decide)
    have word (w : UInt32) (after : Bytes) : word? (Bytes.ofWord32 w ++ after) = some (w, after) := word?_eq_some.2 rfl
    simp [split?, encode_append, word, possible_ofNat small, short, Int32.toNatClampNeg_ofNat_of_lt small]

theorem split?_of_wrong {bytes : Bytes} {length : Int32} (wrong : wrongLength? bytes = some length) :
    split? bytes = none := by
  obtain ⟨found, impossible⟩ := Option.filter_eq_some_iff.1 wrong
  obtain ⟨⟨word, _⟩, first, rfl⟩ := Option.map_eq_some_iff.1 found
  cases split : split? bytes with
  | none => rfl
  | some found =>
    obtain ⟨frame, after⟩ := found
    obtain ⟨rfl, short⟩ := split?_eq_some.1 split
    have small : frame.data.length < 2 ^ 31 := Nat.lt_of_le_of_lt short (by decide)
    cases first.symm.trans (word?_eq_some.2 (encode_append frame after))
    exact absurd ((possible_ofNat small).2 short) (of_decide_eq_true impossible)

theorem length_of_split {bytes after : Bytes} {frame : Frame} (split : split? bytes = some (frame, after)) :
    after.length + 16 ≤ bytes.length := by
  have number (word : UInt32) : (Bytes.ofWord32 word).length = 4 := Bytes.length_ofNat 4 _
  rw [(split?_eq_some.1 split).1]
  simp [encode_append, number]
  omega

/-- The whole frames of bytes one after another, and the tail that begins with none. -/
def decode (bytes : Bytes) : List Frame × Bytes :=
  match _found : split? bytes with
  | none => ([], bytes)
  | some (frame, after) => (frame :: (decode after).1, (decode after).2)
termination_by bytes.length
decreasing_by all_goals exact Nat.lt_of_lt_of_le (Nat.lt_add_of_pos_right (by decide)) (length_of_split _found)

theorem decode_of_none {bytes : Bytes} (none : split? bytes = none) : decode bytes = ([], bytes) := by
  rw [decode]
  split
  · rfl
  · rename_i found
    cases none.symm.trans found

theorem decode_of_split {bytes after : Bytes} {frame : Frame} (split : split? bytes = some (frame, after)) :
    decode bytes = (frame :: (decode after).1, (decode after).2) := by
  rw [decode]
  split
  · rename_i none
    cases none.symm.trans split
  · rename_i found
    cases split.symm.trans found
    rfl

theorem split?_tail (bytes : Bytes) : split? (decode bytes).2 = none := by
  induction bytes using decode.induct with
  | case1 bytes none => rwa [decode_of_none none]
  | case2 bytes frame after split ih => rwa [decode_of_split split]

theorem encode_decode (bytes : Bytes) : (decode bytes).1.flatMap Frame.encode ++ (decode bytes).2 = bytes := by
  induction bytes using decode.induct with
  | case1 bytes none => simp [decode_of_none none]
  | case2 bytes frame after split ih =>
    rw [decode_of_split split, (split?_eq_some.1 split).1, List.flatMap_cons, List.append_assoc, ih]

theorem short_decode (bytes : Bytes) : ∀ frame ∈ (decode bytes).1, frame.data.length ≤ messageLimit := by
  induction bytes using decode.induct with
  | case1 bytes none => simp [decode_of_none none]
  | case2 bytes frame after split ih =>
    rw [decode_of_split split]
    exact List.forall_mem_cons.2 ⟨(split?_eq_some.1 split).2, ih⟩

/-- What is decoded is all that can be: bytes are whole frames as they are written, and a tail that begins with none. -/
theorem decode_eq_iff {bytes tail : Bytes} {frames : List Frame} : decode bytes = (frames, tail) ↔
    bytes = frames.flatMap Frame.encode ++ tail ∧ (∀ frame ∈ frames, frame.data.length ≤ messageLimit) ∧
      split? tail = none := by
  constructor
  · intro decoded
    have whole := encode_decode bytes
    have short := short_decode bytes
    have ends := split?_tail bytes
    rw [decoded] at whole short ends
    exact ⟨whole.symm, short, ends⟩
  · rintro ⟨rfl, short, ends⟩
    induction frames with
    | nil => exact decode_of_none ends
    | cons frame later ih =>
      obtain ⟨here, short⟩ := List.forall_mem_cons.1 short
      have split : split? ((frame :: later).flatMap Frame.encode ++ tail) = some (frame, later.flatMap Frame.encode ++ tail) :=
        split?_eq_some.2 ⟨by rw [List.flatMap_cons, List.append_assoc], here⟩
      rw [decode_of_split split, ih short]

section

variable {r : Reader} {disk : Disk}

theorem place_readAngles (r : Reader) (disk : Disk) : (readAngles r disk).2.place = r.place := by
  have place {r s : Reader} {word : Option UInt32} (read : readWord r disk = (word, s)) : s.place = r.place :=
    (congrArg (fun x => x.2.place) read).symm
  unfold readAngles
  split
  · exact place ‹_›
  · rename_i first
    split
    · rename_i second
      exact (place second).trans (place first)
    · rename_i second
      split
      · rename_i third
        exact (place third).trans ((place second).trans (place first))
      · rename_i third
        exact (place third).trans ((place second).trans (place first))

theorem place_readFrame (r : Reader) (disk : Disk) : (readFrame r disk).2.place = r.place := by
  unfold readFrame
  split
  · rename_i first
    exact (congrArg (fun x => x.2.place) first).symm
  · rename_i s first
    have there : s.place = r.place := (congrArg (fun x => x.2.place) first).symm
    have angles := place_readAngles s disk
    dsimp only
    split
    · exact there
    split
    · exact there
    split
    · rename_i second
      rw [second] at angles
      exact angles.trans there
    · rename_i t second
      rw [second] at angles
      split
      · rename_i third
        exact ((congrArg (fun x => x.2.place) third).symm.trans angles).trans there
      · rename_i third
        exact ((congrArg (fun x => x.2.place) third).symm.trans angles).trans there

theorem readFrame_of_split {frame : Frame} {after : Bytes} (split : split? (r.rest disk) = some (frame, after)) :
    ∃ s, readFrame r disk = (.ok (some frame), s) ∧ s.place = r.place ∧ s.rest disk = after := by
  obtain ⟨there, short⟩ := split?_eq_some.1 split
  obtain ⟨s, read, left⟩ := readFrame_of_rest short there
  have place := place_readFrame r disk
  rw [read] at place
  exact ⟨s, read, place, left⟩

theorem readFrame_of_wrong {length : Int32} (wrong : wrongLength? (r.rest disk) = some length) :
    ∃ s, readFrame r disk = (.error (lengthFault length), s) := by
  obtain ⟨found, impossible⟩ := Option.filter_eq_some_iff.1 wrong
  obtain ⟨⟨word, after⟩, first, rfl⟩ := Option.map_eq_some_iff.1 found
  obtain ⟨s, read, _⟩ := readWord_of_rest (word?_eq_some.1 first)
  refine ⟨s, ?_⟩
  by_cases long : Int32.ofNat messageLimit < word.toInt32
  · simp [readFrame, read, long, lengthFault]
  · have negative : word.toInt32 < 0 := by
      by_contra positive
      exact absurd (possible_iff.2 ⟨long, positive⟩) (of_decide_eq_true impossible)
    simp [readFrame, read, long, negative, lengthFault]

/-- Where neither a frame nor a wrong length is, there is an end. -/
theorem readFrame_of_tail (tail : split? (r.rest disk) = none) (right : wrongLength? (r.rest disk) = none) :
    ∃ s, readFrame r disk = (.ok none, s) := by
  cases found : word? (r.rest disk) with
  | none =>
    rcases readWord_cases r disk with ⟨s, none⟩ | ⟨_, _, _, enough⟩
    · exact ⟨s, by simp [readFrame, none]⟩
    · obtain ⟨word, found'⟩ := word?_of_le (show 4 ≤ (r.rest disk).length by omega)
      cases found.symm.trans found'
  | some first =>
    obtain ⟨word, after⟩ := first
    have possible : Possible word.toInt32 := by
      by_contra impossible
      simp [wrongLength?, found, impossible] at right
    obtain ⟨within, positive⟩ := possible_iff.1 possible
    obtain ⟨s, length, left⟩ := readWord_of_rest (word?_eq_some.1 found)
    rcases readAngles_cases s disk with ⟨t, none⟩ | ⟨angles, t, known, fewer⟩
    · exact ⟨t, by simp [readFrame, length, within, positive, none]⟩
    rcases t.read_cases word.toInt32.toNatClampNeg disk with ⟨u, none⟩ | ⟨_, _, _, enough⟩
    · exact ⟨u, by simp [readFrame, length, within, positive, known, none]⟩
    -- all of the frame is there, and so it is split off
    rw [left] at fewer
    obtain ⟨pitch, second⟩ := word?_of_le (show 4 ≤ after.length by omega)
    obtain ⟨yaw, third⟩ := word?_of_le (show 4 ≤ (after.drop 4).length by rw [List.length_drop]; omega)
    obtain ⟨roll, fourth⟩ := word?_of_le (show 4 ≤ ((after.drop 4).drop 4).length by simp only [List.length_drop]; omega)
    have fits : word.toInt32.toNatClampNeg ≤ (((after.drop 4).drop 4).drop 4).length := by
      simp only [List.length_drop]
      omega
    simp only [split?, found, second, third, fourth, Option.bind_eq_bind, Option.bind_some] at tail
    rw [if_pos ⟨possible, fits⟩] at tail
    cases tail

theorem rest_lineWithin {fuel : Nat} (enough : (r.rest disk).length < fuel) :
    (r.lineWithin fuel disk).2.rest disk = body (r.rest disk) := by
  induction fuel generalizing r with
  | zero => cases enough
  | succ fuel ih =>
    cases there : r.rest disk with
    | nil =>
      rcases r.read_cases 1 disk with ⟨s, none⟩ | ⟨_, _, _, count⟩
      · have left : (r.read 1 disk).2.rest disk = (r.rest disk).drop 1 := Intake.rest_read_all ..
        rw [none, there] at left
        simpa [Reader.lineWithin, none, body] using left
      · simp [there] at count
    | cons b after =>
      obtain ⟨s, read, left⟩ := @Reader.read_of_rest r disk [b] after there
      have read : r.read 1 disk = (some [b], s) := read
      by_cases newline : b = 10
      · simp [Reader.lineWithin, read, newline, body, left]
      · have few : (s.rest disk).length < fuel := by
          rw [there, List.length_cons] at enough
          rw [left]
          omega
        have later := ih few
        rw [left] at later
        simpa [Reader.lineWithin, read, newline, body] using later

theorem place_lineWithin (fuel : Nat) (r : Reader) (disk : Disk) : (r.lineWithin fuel disk).2.place = r.place := by
  induction fuel generalizing r with
  | zero => rfl
  | succ fuel ih =>
    unfold Reader.lineWithin
    split
    · rename_i read
      have place := (congrArg (fun x => x.2.place) read).symm
      split
      · exact place
      · exact (ih _).trans place
    · rename_i read
      exact (congrArg (fun x => x.2.place) read).symm

theorem opened_eq (disk : Disk) (place : Place) :
    (opened disk place).place = place ∧ (opened disk place).rest disk = body (disk.contents place).bytes := by
  have start : (Reader.atStart place).rest disk = (disk.contents place).bytes := by
    change [] ++ (disk.contents place).bytes.drop 0 = _
    simp
  have enough : ((Reader.atStart place).rest disk).length < (Reader.atStart place).left disk + 1 := by
    rw [Reader.rest, Intake.length_rest]
    exact Nat.lt_succ_self _
  have line := rest_lineWithin enough
  rw [start] at line
  unfold opened Reader.line
  constructor
  · rw [place_lineWithin, Reader.atStart]
  · exact line

end

end GameHost.Demo
