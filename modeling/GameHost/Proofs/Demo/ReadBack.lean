import GameHost.Demo
import GameHost.Proofs.Replay.Standing

/-!
Reading a demo back. After the track line come frames: one whose message is within the limit is read as it was
written, and one whose message is longer stops the reading with a fault.
-/
namespace GameHost

namespace Reader

variable {r : Reader} {disk : Disk}

theorem read_of_rest {bytes after : Bytes} (there : r.rest disk = bytes ++ after) :
    ∃ s, r.read bytes.length disk = (some bytes, s) ∧ s.rest disk = after := by
  have left : bytes.length ≤ r.intake.left (disk.contents r.place) := by
    have whole := congrArg List.length there
    rw [rest, Intake.length_rest, List.length_append] at whole
    omega
  have got : (r.intake.read bytes.length (disk.contents r.place)).1 = some bytes := by
    rw [Intake.read_bytes, if_pos left]
    change some ((r.rest disk).take bytes.length) = some bytes
    rw [there, List.take_left]
  refine ⟨_, Prod.ext got rfl, ?_⟩
  change (r.intake.read bytes.length (disk.contents r.place)).2.rest (disk.contents r.place) = after
  rw [Intake.rest_read left]
  change (r.rest disk).drop bytes.length = after
  rw [there, List.drop_left]

/-- A number of bytes is read, or there are fewer. -/
theorem read_cases (r : Reader) (count : Nat) (disk : Disk) : (∃ s, r.read count disk = (none, s)) ∨
    ∃ bytes s, r.read count disk = (some bytes, s) ∧ (s.rest disk).length + count = (r.rest disk).length := by
  by_cases enough : count ≤ (r.rest disk).length
  · have there : r.rest disk = (r.rest disk).take count ++ (r.rest disk).drop count := (List.take_append_drop ..).symm
    obtain ⟨s, got, left⟩ := read_of_rest there
    rw [List.length_take, Nat.min_eq_left enough] at got
    right
    refine ⟨_, s, got, ?_⟩
    rw [left, List.length_drop]
    omega
  · left
    rw [rest, Intake.length_rest] at enough
    have got : (r.intake.read count (disk.contents r.place)).1 = none := by
      rw [Intake.read_bytes, if_neg enough]
    exact ⟨_, Prod.ext got rfl⟩

theorem lineWithin_of_rest {line after : Bytes} (plain : 10 ∉ line) (there : r.rest disk = line ++ 10 :: after)
    {fuel : Nat} (enough : line.length < fuel) : ∃ s, r.lineWithin fuel disk = (line, s) ∧ s.rest disk = after := by
  induction line generalizing r fuel with
  | nil =>
    obtain ⟨fuel, rfl⟩ : ∃ n, fuel = n + 1 := ⟨fuel - 1, by simp at enough; omega⟩
    obtain ⟨s, got, left⟩ := @read_of_rest r disk [10] after there
    exact ⟨s, by simp [lineWithin, show r.read 1 disk = _ from got], left⟩
  | cons b line ih =>
    obtain ⟨fuel, rfl⟩ : ∃ n, fuel = n + 1 := ⟨fuel - 1, by simp at enough; omega⟩
    obtain ⟨s, got, left⟩ := @read_of_rest r disk [b] (line ++ 10 :: after) there
    simp only [List.mem_cons, not_or] at plain
    simp only [List.length_cons] at enough
    obtain ⟨t, later, onward⟩ := @ih s plain.2 left fuel (by omega)
    have other : ¬ b = 10 := fun same => plain.1 same.symm
    exact ⟨t, by simp [lineWithin, show r.read 1 disk = _ from got, other, later], onward⟩

end Reader

namespace Demo

variable {r : Reader} {disk : Disk}

theorem readWord_of_rest {word : UInt32} {after : Bytes} (there : r.rest disk = Bytes.ofWord32 word ++ after) :
    ∃ s, readWord r disk = (some word, s) ∧ s.rest disk = after := by
  obtain ⟨s, got, left⟩ := Reader.read_of_rest there
  have length : (Bytes.ofWord32 word).length = 4 := Bytes.length_ofNat 4 _
  rw [length] at got
  exact ⟨s, by simp [readWord, got], left⟩

theorem readAngles_of_rest {angles : Angles} {after : Bytes}
    (there : r.rest disk = Bytes.ofWord32 angles.pitch.bits ++ (Bytes.ofWord32 angles.yaw.bits ++
      (Bytes.ofWord32 angles.roll.bits ++ after))) :
    ∃ s, readAngles r disk = (some angles, s) ∧ s.rest disk = after := by
  obtain ⟨s, pitch, left⟩ := readWord_of_rest there
  obtain ⟨t, yaw, left⟩ := readWord_of_rest left
  obtain ⟨u, roll, left⟩ := readWord_of_rest left
  exact ⟨u, by simp [readAngles, pitch, yaw, roll], left⟩

theorem encode_append (frame : Frame) (after : Bytes) : frame.encode ++ after =
    Bytes.ofWord32 (Int32.ofNat frame.data.length).toUInt32 ++ (Bytes.ofWord32 frame.angles.pitch.bits ++
      (Bytes.ofWord32 frame.angles.yaw.bits ++ (Bytes.ofWord32 frame.angles.roll.bits ++ (frame.data ++ after)))) := by
  simp [Frame.encode, Frame.pieces, Bytes.ofInt32]

theorem readWord_cases (r : Reader) (disk : Disk) : (∃ s, readWord r disk = (none, s)) ∨
    ∃ word s, readWord r disk = (some word, s) ∧ (s.rest disk).length + 4 = (r.rest disk).length := by
  rcases r.read_cases 4 disk with ⟨s, none⟩ | ⟨bytes, s, got, count⟩
  · exact .inl ⟨s, by simp [readWord, none]⟩
  · exact .inr ⟨bytes.toWord32, s, by simp [readWord, got], count⟩

theorem readAngles_cases (r : Reader) (disk : Disk) : (∃ s, readAngles r disk = (none, s)) ∨
    ∃ angles s, readAngles r disk = (some angles, s) ∧ (s.rest disk).length + 12 = (r.rest disk).length := by
  rcases readWord_cases r disk with ⟨s, none⟩ | ⟨pitch, s, first, firstCount⟩
  · exact .inl ⟨s, by simp [readAngles, none]⟩
  rcases readWord_cases s disk with ⟨t, none⟩ | ⟨yaw, t, second, secondCount⟩
  · exact .inl ⟨t, by simp [readAngles, first, none]⟩
  rcases readWord_cases t disk with ⟨u, none⟩ | ⟨roll, u, third, thirdCount⟩
  · exact .inl ⟨u, by simp [readAngles, first, second, none]⟩
  · exact .inr ⟨⟨⟨pitch⟩, ⟨yaw⟩, ⟨roll⟩⟩, u, by simp [readAngles, first, second, third], by omega⟩

theorem length_encode (frame : Frame) : frame.encode.length = 16 + frame.data.length := by
  have number (word : UInt32) : (Bytes.ofWord32 word).length = 4 := Bytes.length_ofNat 4 _
  simp [Frame.encode, Frame.pieces, Bytes.ofInt32, number]
  omega

theorem limit_lt_iff {n : Nat} (small : n < 2 ^ 31) : Int32.ofNat messageLimit < Int32.ofNat n ↔ messageLimit < n := by
  have limit : (Int32.ofNat messageLimit).toInt = messageLimit := Int32.toInt_ofNat_of_lt (by decide)
  rw [Int32.lt_iff_toInt_lt, limit, Int32.toInt_ofNat_of_lt small, Int.ofNat_lt]

/-- The length of a frame within the limit is neither too long nor negative, and is what is read. -/
theorem length_within {n : Nat} (short : n ≤ messageLimit) : ¬ Int32.ofNat messageLimit < Int32.ofNat n ∧
    ¬ Int32.ofNat n < 0 ∧ (Int32.ofNat n).toNatClampNeg = n := by
  have small : n < 2 ^ 31 := Nat.lt_of_le_of_lt short (by decide)
  refine ⟨?_, ?_, Int32.toNatClampNeg_ofNat_of_lt small⟩
  · rw [limit_lt_iff small]
    exact Nat.not_lt.2 short
  · rw [Int32.lt_iff_toInt_lt, Int32.toInt_ofNat_of_lt small, Int32.toInt_zero]
    omega

theorem readFrame_of_rest {frame : Frame} {after : Bytes} (short : frame.data.length ≤ messageLimit)
    (there : r.rest disk = frame.encode ++ after) :
    ∃ s, readFrame r disk = (.ok (some frame), s) ∧ s.rest disk = after := by
  obtain ⟨within, positive, count⟩ := length_within short
  rw [encode_append] at there
  obtain ⟨s, length, left⟩ := readWord_of_rest there
  obtain ⟨t, angles, left⟩ := readAngles_of_rest left
  obtain ⟨u, data, left⟩ := Reader.read_of_rest left
  refine ⟨u, ?_, left⟩
  simp [readFrame, length, within, positive, angles, count, data]

theorem readFrame_too_long {frame : Frame} {after : Bytes} (long : messageLimit < frame.data.length)
    (small : frame.data.length < 2 ^ 31) (there : r.rest disk = frame.encode ++ after) :
    ∃ s, readFrame r disk = (.error (.frameTooLong (Int32.ofNat frame.data.length)), s) := by
  have past : Int32.ofNat messageLimit < Int32.ofNat frame.data.length := (limit_lt_iff small).2 long
  rw [encode_append] at there
  obtain ⟨s, length, _⟩ := readWord_of_rest there
  exact ⟨s, by simp [readFrame, length, past]⟩

theorem readFrame_of_end (there : r.rest disk = []) : ∃ s, readFrame r disk = (.ok none, s) := by
  rcases r.read_cases 4 disk with ⟨s, got⟩ | ⟨_, _, _, count⟩
  · exact ⟨s, by simp [readFrame, readWord, got]⟩
  · simp [there] at count

/-- What is read from a reader on, frame by frame until there is none or one is at fault. -/
inductive Reads (disk : Disk) : Reader → List Frame → Option Fault → Prop where
  | ended {r after : Reader} (read : readFrame r disk = (.ok none, after)) : Reads disk r [] none
  | failed {r after : Reader} {fault : Fault} (read : readFrame r disk = (.error fault, after)) :
    Reads disk r [] (some fault)
  | frame {r after : Reader} {frame : Frame} {later : List Frame} {fault : Option Fault}
      (read : readFrame r disk = (.ok (some frame), after)) (onward : Reads disk after later fault) :
    Reads disk r (frame :: later) fault

theorem Reads.unique {r : Reader} {frames others : List Frame} {fault other : Option Fault}
    (reads : Reads disk r frames fault) (again : Reads disk r others other) : frames = others ∧ fault = other := by
  induction reads generalizing others other with
  | ended read =>
    cases again with
    | ended _ => exact ⟨rfl, rfl⟩
    | failed read' | frame read' _ => cases read.symm.trans read'
  | failed read =>
    cases again with
    | failed read' =>
      cases read.symm.trans read'
      exact ⟨rfl, rfl⟩
    | ended read' | frame read' _ => cases read.symm.trans read'
  | frame read _ ih =>
    cases again with
    | frame read' onward =>
      cases read.symm.trans read'
      obtain ⟨rfl, rfl⟩ := ih onward
      exact ⟨rfl, rfl⟩
    | ended read' | failed read' => cases read.symm.trans read'

/-- A reader of a demo of which the track line has been read. -/
def opened (disk : Disk) (place : Place) : Reader := ((Reader.atStart place).line disk).2

theorem newline_notin_digit {c : Char} (digit : c.isDigit = true) : 10 ∉ String.utf8EncodeChar c := by
  simp only [Char.isDigit, Bool.and_eq_true, decide_eq_true_eq, ge_iff_le, UInt32.le_iff_toNat_le] at digit
  obtain ⟨low, high⟩ := digit
  change 48 ≤ c.val.toNat at low
  change c.val.toNat ≤ 57 at high
  rw [String.utf8EncodeChar, if_pos (by omega), List.mem_singleton]
  intro newline
  have code := congrArg UInt8.toNat newline
  rw [UInt8.toNat_ofNat', Nat.mod_eq_of_lt (by omega)] at code
  change 10 = c.val.toNat at code
  omega

theorem newline_notin_number (n : Int) : 10 ∉ Text.encode (Text.ofInt n) := by
  have digits (m : Nat) : 10 ∉ Text.encode (Text.ofNat m) := by
    intro member
    obtain ⟨c, there, byte⟩ := List.mem_flatMap.1 member
    exact newline_notin_digit (Nat.isDigit_of_mem_toDigits (by decide) (by decide) there) byte
  cases n with
  | ofNat m => exact digits m
  | negSucc m =>
    unfold Text.ofInt Text.encode
    rw [List.flatMap_cons, List.mem_append]
    rintro (minus | later)
    · exact absurd minus (by decide)
    · exact digits (m + 1) later

theorem trackLine_eq (track : Int32) : trackLine track = Text.encode (Text.ofInt track.toInt) ++ [10] := by
  rw [trackLine, Text.encode, List.flatMap_append]
  rfl

theorem line_of_rest {track : Int32} {after : Bytes} (there : r.rest disk = trackLine track ++ after) :
    ∃ s, r.line disk = (Text.encode (Text.ofInt track.toInt), s) ∧ s.rest disk = after := by
  rw [trackLine_eq, List.append_assoc] at there
  have enough : (Text.encode (Text.ofInt track.toInt)).length < r.left disk + 1 := by
    have whole := congrArg List.length there
    rw [Reader.rest, Intake.length_rest, List.length_append] at whole
    unfold Reader.left
    omega
  exact Reader.lineWithin_of_rest (newline_notin_number _) there enough

theorem line_atStart {disk : Disk} {place : Place} {track : Int32} {after : Bytes}
    (content : (disk.contents place).bytes = trackLine track ++ after) :
    ∃ r, (Reader.atStart place).line disk = (Text.encode (Text.ofInt track.toInt), r) ∧ r.rest disk = after := by
  apply line_of_rest
  change [] ++ (disk.contents place).bytes.drop 0 = _
  rw [content]
  simp

theorem rest_opened {disk : Disk} {place : Place} {track : Int32} {after : Bytes}
    (content : (disk.contents place).bytes = trackLine track ++ after) : (opened disk place).rest disk = after := by
  obtain ⟨r, got, left⟩ := line_atStart content
  unfold opened
  rw [got]
  exact left

/-- Frames within the limit are read back up to the end, where nothing is at fault. -/
theorem reads_all {frames : List Frame} (short : ∀ frame ∈ frames, frame.data.length ≤ messageLimit) {r : Reader}
    (there : r.rest disk = frames.flatMap Frame.encode) : Reads disk r frames none := by
  induction frames generalizing r with
  | nil =>
    obtain ⟨s, read⟩ := readFrame_of_end there
    exact .ended read
  | cons frame later ih =>
    obtain ⟨s, read, left⟩ := readFrame_of_rest (short frame List.mem_cons_self) there
    exact .frame read (ih (fun other member => short other (List.mem_cons_of_mem _ member)) left)

/-- The first frame over the limit is where the reading ends, with a fault. -/
theorem reads_to_fault {early : List Frame} (short : ∀ frame ∈ early, frame.data.length ≤ messageLimit) {long : Frame}
    (beyond : messageLimit < long.data.length) (small : long.data.length < 2 ^ 31) {after : Bytes} {r : Reader}
    (there : r.rest disk = early.flatMap Frame.encode ++ (long.encode ++ after)) :
    Reads disk r early (some (.frameTooLong (Int32.ofNat long.data.length))) := by
  induction early generalizing r with
  | nil =>
    obtain ⟨s, read⟩ := readFrame_too_long beyond small there
    exact .failed read
  | cons frame later ih =>
    rw [List.flatMap_cons, List.append_assoc] at there
    obtain ⟨s, read, left⟩ := readFrame_of_rest (short frame List.mem_cons_self) there
    exact .frame read (ih (fun other member => short other (List.mem_cons_of_mem _ member)) left)

end Demo

end GameHost
