import GameHost.Proofs.Client.Finished
import GameHost.Proofs.Demo.ReadBack
import GameHost.Proofs.Message.Fill

/-!
Demos that are cut short. Whatever byte a demo is cut at after its track line, the track is read as it was written, then
the frames that are wholly there, and then the end, which is no fault.
-/
namespace GameHost

namespace Numeral

theorem word_eq_ofNat (base : Nat) (digits : List Nat) (start : Nat) :
    digits.foldl (fun n d => n * Int32.ofNat base + Int32.ofNat d) (Int32.ofNat start) =
      Int32.ofNat (digits.foldl (fun n d => base * n + d) start) := by
  induction digits generalizing start with
  | nil => rfl
  | cons d rest ih =>
    rw [List.foldl_cons, List.foldl_cons, ← ih, Int32.ofNat_add, Int32.ofNat_mul, Int32.mul_comm]

end Numeral

namespace Demo

open Client (farewell finishDemo)

theorem digit_bounds {c : Char} (digit : c.isDigit = true) : 48 ≤ c.toNat ∧ c.toNat ≤ 57 := by
  simpa [Char.isDigit, UInt32.le_iff_toNat_le] using digit

theorem encode_digits {text : Text} (digits : ∀ c ∈ text, c.isDigit = true) :
    Text.encode text = text.map fun c => UInt8.ofNat c.toNat := by
  induction text with
  | nil => rfl
  | cons c rest ih =>
    have small : c.val.toNat ≤ 127 := Nat.le_trans (digit_bounds (digits c List.mem_cons_self)).2 (by decide)
    have first : String.utf8EncodeChar c = [UInt8.ofNat c.toNat] := by
      rw [String.utf8EncodeChar, if_pos small]
      rfl
    rw [Text.encode, List.flatMap_cons, first, List.map_cons]
    exact congrArg _ (ih fun d member => digits d (List.mem_cons_of_mem c member))

section

variable {text : Text} (digits : ∀ c ∈ text, c.isDigit = true)

include digits

theorem byte_of_digits {b : UInt8} (member : b ∈ Text.encode text) : 48 ≤ b ∧ b ≤ 57 := by
  rw [encode_digits digits] at member
  obtain ⟨c, there, rfl⟩ := List.mem_map.1 member
  have bounds := digit_bounds (digits c there)
  rw [UInt8.le_iff_toNat_le, UInt8.le_iff_toNat_le, UInt8.toNat_ofNat', Nat.mod_eq_of_lt (by omega)]
  exact bounds

theorem word_of_digits : Numeral.word 10 ((Text.encode text).map fun b => b.toNat - 48) =
    Int32.ofNat (Nat.ofDigitChars 10 text 0) := by
  have values : (Text.encode text).map (fun b => b.toNat - 48) = text.map fun c => c.toNat - '0'.toNat := by
    rw [encode_digits digits, List.map_map]
    apply List.map_congr_left
    intro c member
    have bounds := digit_bounds (digits c member)
    rw [Function.comp_apply, UInt8.toNat_ofNat', Nat.mod_eq_of_lt (by omega)]
    rfl
  have wrapped := Numeral.word_eq_ofNat 10 (text.map fun c => c.toNat - '0'.toNat) 0
  rw [List.foldl_map, List.foldl_map] at wrapped
  rw [values, Numeral.word, List.foldl_map, Nat.ofDigitChars]
  exact wrapped

theorem filter_of_digits : ((Text.encode text).filter fun b => 48 ≤ b && b ≤ 57) = Text.encode text := by
  apply List.filter_eq_self.2
  intro b member
  simpa using byte_of_digits digits member

theorem trackOf_digits : trackOf (Text.encode text) = Int32.ofNat (Nat.ofDigitChars 10 text 0) := by
  have unsigned : ¬ (Text.encode text).contains 45 = true := by
    intro minus
    exact absurd (byte_of_digits digits (List.contains_iff_mem.1 minus)).1 (by decide)
  unfold trackOf
  rw [if_neg unsigned, filter_of_digits digits, word_of_digits digits]

theorem trackOf_negative : trackOf (45 :: Text.encode text) = -Int32.ofNat (Nat.ofDigitChars 10 text 0) := by
  have sign : (45 :: Text.encode text).contains 45 = true := by simp
  have line : ((45 :: Text.encode text).filter fun b => 48 ≤ b && b ≤ 57) = Text.encode text :=
    (List.filter_cons_of_neg (by decide)).trans (filter_of_digits digits)
  unfold trackOf
  rw [if_pos sign, line, word_of_digits digits]

end

/-- The track is read back from its line, the lowest of all too, although its size is one too many. -/
theorem trackOf_number (track : Int32) : trackOf (Text.encode (Text.ofInt track.toInt)) = track := by
  have digits (n : Nat) : ∀ c ∈ Text.ofNat n, c.isDigit = true :=
    fun c member => Nat.isDigit_of_mem_toDigits (by decide) (by decide) member
  have size (n : Nat) : Nat.ofDigitChars 10 (Text.ofNat n) 0 = n := Nat.ofDigitChars_toDigits (by decide) (by decide)
  have back : Int32.ofInt track.toInt = track := Int32.ofInt_toInt track
  cases number : track.toInt with
  | ofNat n =>
    rw [number] at back
    calc trackOf (Text.encode (Text.ofNat n)) = Int32.ofNat n := by rw [trackOf_digits (digits n), size]
      _ = Int32.ofInt (Int.ofNat n) := Int32.ofInt_eq_ofNat.symm
      _ = track := back
  | negSucc n =>
    rw [number] at back
    calc trackOf (45 :: Text.encode (Text.ofNat (n + 1))) = -Int32.ofNat (n + 1) := by
          rw [trackOf_negative (digits (n + 1)), size]
      _ = Int32.ofInt (Int.negSucc n) := by rw [Int.negSucc_eq, Int32.ofInt_neg, ← Int32.ofInt_eq_ofNat]; rfl
      _ = track := back

section

variable {r : Reader} {disk : Disk}

/-- Where only a part of a frame is left there is none, wherever it is cut. -/
theorem readFrame_of_cut {frame : Frame} (short : frame.data.length ≤ messageLimit) (part : r.rest disk <+: frame.encode)
    (cut : (r.rest disk).length < frame.encode.length) : ∃ s, readFrame r disk = (.ok none, s) := by
  rw [length_encode] at cut
  rcases readWord_cases r disk with ⟨s, none⟩ | ⟨_, _, _, enough⟩
  · exact ⟨s, by simp [readFrame, none]⟩
  -- The length is wholly there, and what is missing is a part of what it promises.
  have number : (Bytes.ofWord32 (Int32.ofNat frame.data.length).toUInt32).length = 4 := Bytes.length_ofNat 4 _
  have whole := encode_append frame []
  rw [List.append_nil] at whole
  obtain ⟨after, first⟩ : Bytes.ofWord32 (Int32.ofNat frame.data.length).toUInt32 <+: r.rest disk :=
    List.prefix_of_prefix_length_le ⟨_, whole.symm⟩ part (by omega)
  obtain ⟨s, length, left⟩ := readWord_of_rest first.symm
  have few : (s.rest disk).length < 12 + frame.data.length := by
    rw [← first, List.length_append] at cut
    rw [left]
    omega
  obtain ⟨within, positive, count⟩ := length_within short
  rcases readAngles_cases s disk with ⟨t, none⟩ | ⟨angles, t, known, fewer⟩
  · exact ⟨t, by simp [readFrame, length, within, positive, none]⟩
  rcases t.read_cases frame.data.length disk with ⟨u, none⟩ | ⟨_, _, _, enough⟩
  · exact ⟨u, by simp [readFrame, length, within, positive, known, count, none]⟩
  · omega

end

/-- The bytes of a demo of these frames. -/
def bytes (track : Int32) (frames : List Frame) : Bytes := trackLine track ++ frames.flatMap Frame.encode

/-- How many bytes of a demo there are up to the end of a frame. -/
def ending (track : Int32) (frames : List Frame) (place : Nat) : Nat := (bytes track (frames.take (place + 1))).length

/-- The frames of a demo that lie wholly within its first bytes. -/
def whole (track : Int32) (frames : List Frame) (kept : Nat) : List Frame :=
  (frames.zipIdx.filter fun (_, place) => ending track frames place ≤ kept).map Prod.fst

theorem filter_zipIdx_lt (frames : List Frame) (start stop : Nat) :
    ((frames.zipIdx start).filter fun (_, place) => place < stop).map Prod.fst = frames.take (stop - start) := by
  induction frames generalizing start with
  | nil => simp
  | cons frame later ih =>
    have rest := ih (start + 1)
    by_cases before : start < stop
    · rw [show stop - start = stop - (start + 1) + 1 by omega, List.take_succ_cons, ← rest]
      simp [List.zipIdx_cons, before]
    · rw [show stop - (start + 1) = 0 by omega] at rest
      rw [show stop - start = 0 by omega]
      simpa [List.zipIdx_cons, before] using rest

/-- Frames of which only the first bytes are there are read up to the first that is not whole. -/
theorem reads_cut {frames : List Frame} (short : ∀ frame ∈ frames, frame.data.length ≤ messageLimit) {room : Nat}
    {r : Reader} {disk : Disk} (there : r.rest disk = (frames.flatMap Frame.encode).take room) :
    ∃ count, Reads disk r (frames.take count) none ∧ ∀ place < frames.length,
      ((frames.take (place + 1)).flatMap Frame.encode).length ≤ room ↔ place < count := by
  induction frames generalizing r room with
  | nil =>
    obtain ⟨s, read⟩ := readFrame_of_end (show r.rest disk = [] by simpa using there)
    exact ⟨0, .ended read, by simp⟩
  | cons frame later ih =>
    have here := short frame List.mem_cons_self
    by_cases fits : frame.encode.length ≤ room
    · have more : r.rest disk = frame.encode ++ (later.flatMap Frame.encode).take (room - frame.encode.length) := by
        rw [there, List.flatMap_cons, List.take_append, List.take_of_length_le fits]
      obtain ⟨s, read, left⟩ := readFrame_of_rest here more
      obtain ⟨count, onward, ends⟩ := ih (fun other member => short other (List.mem_cons_of_mem _ member)) left
      refine ⟨count + 1, .frame read onward, ?_⟩
      intro place inside
      cases place with
      | zero => simpa using fits
      | succ place =>
        have same := ends place (by simpa using inside)
        rw [List.take_succ_cons, List.flatMap_cons, List.length_append]
        omega
    · have part : r.rest disk = frame.encode.take room := by
        rw [there, List.flatMap_cons, List.take_append_of_le_length (Nat.le_of_not_le fits)]
      have cut : (r.rest disk).length < frame.encode.length := by
        rw [part, List.length_take]
        omega
      obtain ⟨s, read⟩ := readFrame_of_cut here (part ▸ List.take_prefix ..) cut
      refine ⟨0, .ended read, ?_⟩
      intro place _
      rw [List.take_succ_cons, List.flatMap_cons, List.length_append]
      omega

theorem whole_eq_take {track : Int32} {frames : List Frame} {kept count : Nat}
    (ends : ∀ place < frames.length, ending track frames place ≤ kept ↔ place < count) :
    whole track frames kept = frames.take count := by
  have same : (frames.zipIdx.filter fun (_, place) => ending track frames place ≤ kept) =
      frames.zipIdx.filter fun (_, place) => place < count := by
    apply List.filter_congr
    rintro ⟨frame, place⟩ member
    have inside : place < frames.length := by simpa using List.snd_lt_of_mem_zipIdx member
    simpa using ends place inside
  unfold whole
  rw [same]
  exact filter_zipIdx_lt frames 0 count

/-- What is read of a demo of which only its first bytes are there. -/
theorem read_cut {track : Int32} {frames : List Frame} (short : ∀ frame ∈ frames, frame.data.length ≤ messageLimit)
    {kept : Nat} (line : (trackLine track).length ≤ kept) {disk : Disk} {place : Place}
    (content : (disk.contents place).bytes = (bytes track frames).take kept) :
    trackOf ((Reader.atStart place).line disk).1 = track ∧
      Reads disk (opened disk place) (whole track frames kept) none := by
  rw [bytes, List.take_append, List.take_of_length_le line] at content
  obtain ⟨r, got, left⟩ := line_atStart content
  obtain ⟨count, reads, ends⟩ := reads_cut short left
  constructor
  · rw [got]
    exact trackOf_number track
  · rw [whole_eq_take fun number inside => ?_, opened, got]
    · exact reads
    · rw [← ends number inside, ending, bytes, List.length_append]
      omega

theorem whole_of_kept {track : Int32} {frames : List Frame} {kept : Nat} (all : (bytes track frames).length ≤ kept) :
    whole track frames kept = frames := by
  have ends : ∀ place < frames.length, ending track frames place ≤ kept ↔ place < frames.length := by
    intro place inside
    have parts : frames.flatMap Frame.encode = (frames.take (place + 1)).flatMap Frame.encode ++
        (frames.drop (place + 1)).flatMap Frame.encode := by
      rw [← List.flatMap_append, List.take_append_drop]
    have sum := congrArg List.length parts
    rw [List.length_append] at sum
    rw [bytes, List.length_append] at all
    rw [ending, bytes, List.length_append]
    omega
  rw [whole_eq_take ends, List.take_length]

/-- The frames of a demo that is finished. -/
def finished (frames : List Frame) (angles : Angles) : List Frame := frames ++ [⟨angles, farewell⟩]

/-- Write frames to a demo one by one, and finish it. -/
def writeFrames (angles : Angles) : List Frame → FileAct Unit
  | [] => finishDemo angles
  | frame :: later => do
    Writer.writeAll frame.pieces
    writeFrames angles later

theorem writeFrames_ok {angles : Angles} (frames : List Frame) {file : Writer} {disk : Disk} {before : Bytes}
    (holds : file.Holds disk before) (ordinary : Writer.Ordinary (file, disk)) :
    ∃ left after, writeFrames angles frames (file, disk) = .ok () (left, after) ∧
      ((left.close after).contents file.place).bytes = before ++ (finished frames angles).flatMap Frame.encode := by
  induction frames generalizing file disk before with
  | nil =>
    obtain ⟨⟨left, after⟩, wrote, _⟩ :=
      (Writer.Succeeds.bind (.writeAll _) .flush : Writer.Succeeds (finishDemo angles)) _ ordinary
    refine ⟨left, after, wrote, ?_⟩
    simpa [finished] using Client.finishDemo_content holds wrote
  | cons frame later ih =>
    obtain ⟨⟨m, between⟩, wrote, still⟩ := Writer.Succeeds.writeAll frame.pieces _ ordinary
    have same := Writer.Local.writeAll frame.pieces (file, disk)
    rw [wrote] at same
    have place : m.place = file.place := same.place
    obtain ⟨left, after, onward, content⟩ := ih (holds.writeAll wrote) still
    refine ⟨left, after, (Act.bind_of_ok wrote).trans onward, ?_⟩
    rw [← place, content, List.append_assoc]
    rfl

theorem short_finished {frames : List Frame} {angles : Angles} (short : ∀ frame ∈ frames, frame.data.length ≤ messageLimit) :
    ∀ frame ∈ finished frames angles, frame.data.length ≤ messageLimit := by
  intro frame member
  rcases List.mem_append.1 member with written | last
  · exact short frame written
  · cases List.mem_singleton.1 last
    exact (by decide : farewell.length ≤ messageLimit)

theorem mem_of_whole {track : Int32} {frames : List Frame} {kept : Nat} {frame : Frame}
    (member : frame ∈ whole track frames kept) : frame ∈ frames := by
  obtain ⟨⟨frame, place⟩, kept, rfl⟩ := List.mem_map.1 member
  exact List.fst_mem_of_mem_zipIdx (List.mem_filter.1 kept).1

/-- A demo that is written and finished, and cut anywhere after its track line, is read back: the track, and the frames
that are whole, and then no more. -/
theorem cut_demo_read_back (track : Int32) (angles : Angles) {frames : List Frame}
    (short : ∀ frame ∈ frames, frame.data.length ≤ messageLimit) :
    (∀ path file disk made, Writer.create path (trackLine track) disk = .ok file made → Writer.Ordinary (file, made) →
      ∃ left after, writeFrames angles frames (file, made) = .ok () (left, after) ∧
        ((left.close after).contents file.place).bytes = bytes track (finished frames angles)) ∧
    (∀ disk place kept, (trackLine track).length ≤ kept →
      (disk.contents place).bytes = (bytes track (finished frames angles)).take kept →
        trackOf ((Reader.atStart place).line disk).1 = track ∧
          Reads disk (opened disk place) (whole track (finished frames angles) kept) none ∧
          ((bytes track (finished frames angles)).length ≤ kept →
            whole track (finished frames angles) kept = finished frames angles)) ∧
    ∀ kept, ∀ frame ∈ whole track (finished frames angles) kept, ∀ message : Message.Buffer,
      messageLimit ≤ message.capacity → ∃ filled, Message.Buffer.fill frame.data message = .ok () filled ∧
        filled.written = frame.data := by
  refine ⟨?_, ?_, ?_⟩
  · intro path file disk made created ordinary
    exact writeFrames_ok frames (Writer.create_holds created) ordinary
  · intro disk place kept line content
    obtain ⟨number, reads⟩ := read_cut (short_finished short) line content
    exact ⟨number, reads, whole_of_kept⟩
  · intro kept frame member message room
    have within := short_finished short frame (mem_of_whole member)
    exact ⟨message.holding frame.data, Message.Buffer.fill_ok.2 ⟨Nat.le_trans within room, rfl⟩,
      Message.Buffer.written_holding ..⟩

/-- A demo on the lowest of all tracks, cut within the second of its frames. -/
theorem demo_cut_within_frame : ∃ (first second : Frame) (file left : Writer) (made after cut : Disk),
    first.data = [1] ∧ second.data = [2, 0] ∧
    Writer.create "r.dem" (trackLine Int32.minValue) (.empty []) = .ok file made ∧
    writeFrames .zero [first, second] (file, made) = .ok () (left, after) ∧
    (cut.contents file.place).bytes = ((left.close after).contents file.place).bytes.take 40 ∧
    trackOf ((Reader.atStart file.place).line cut).1 = Int32.minValue ∧
    Reads cut (opened cut file.place) [first] none := by
  let first : Frame := ⟨⟨⟨0x7FC00001⟩, ⟨0x80000000⟩, ⟨1⟩⟩, [1]⟩
  let second : Frame := ⟨.zero, [2, 0]⟩
  have short : ∀ frame ∈ [first, second], frame.data.length ≤ messageLimit := by decide
  obtain ⟨writes, reads, _⟩ := cut_demo_read_back Int32.minValue .zero short
  have fine : Act.ends (fun file made => made.entryAt file.place = some (.file Packed.empty))
      (Writer.create "r.dem" (trackLine Int32.minValue) (.empty [])) = true := by decide +kernel
  obtain ⟨file, made, created, entry⟩ := Act.ok_of_ends fine
  have place : file.place = ["r.dem".toList] := Writer.place_create created
  obtain ⟨left, after, wrote, content⟩ := writes _ file _ made created ⟨_, of_decide_eq_true entry⟩
  let some := (bytes Int32.minValue (finished [first, second] .zero)).take 40
  let cut : Disk := ⟨[(["r.dem".toList], .file (Packed.ofBytes some))], []⟩
  have kept : (cut.contents file.place).bytes = some := by
    rw [place]
    exact Packed.bytes_ofBytes _
  have whole : whole Int32.minValue (finished [first, second] .zero) 40 = [first] := by decide +kernel
  obtain ⟨number, read, _⟩ := reads cut file.place 40 (by decide +kernel) kept
  rw [whole] at read
  exact ⟨first, second, file, left, made, after, cut, rfl, rfl, created, wrote, by rw [kept, content], number, read⟩

end Demo

end GameHost
