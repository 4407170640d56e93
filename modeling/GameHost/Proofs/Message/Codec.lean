import GameHost.Proofs.Message.Discipline
import GameHost.Proofs.Message.Grammar
import GameHost.Proofs.Text.Utf8

/-!
Fields written to a message and read back. Whatever is written behind it, each field is read as the value that its width
can hold, and reading goes on where its bytes end; so a whole run of fields comes back in order, and nothing is left.
-/
namespace GameHost

namespace Bytes

theorem take_ofNat {count width : Nat} (within : count ≤ width) (n : Nat) :
    (ofNat width n).take count = ofNat count n := by
  induction count generalizing width n with
  | zero => simp [ofNat]
  | succ count ih =>
    obtain ⟨more, rfl⟩ := Nat.exists_eq_add_of_le within
    rw [Nat.add_right_comm, ofNat, ofNat, List.take_succ_cons, ih (Nat.le_add_right count more)]

theorem length_take_ofInt32 {width : Nat} (within : width ≤ 4) (n : Int32) :
    ((ofInt32 n).take width).length = width := by
  rw [ofInt32, ofWord32, take_ofNat within, length_ofNat]

end Bytes

namespace Message
open Buffer

inductive Field where
  | char (n : Int32)
  | byte (n : Int32)
  | short (n : Int32)
  | long (n : Int32)
  | single (x : Single)
  | coord (x : Single)
  | angle (x : Single)
  | text (words : Text)
  deriving DecidableEq

/-- What kind of field a reader asks for. -/
inductive Kind where
  | char
  | byte
  | short
  | long
  | single
  | coord
  | angle
  | text

/-- What a reader gets for a field. -/
inductive Value where
  | number (n : Int)
  | single (x : Single)
  | text (words : Text)
  deriving DecidableEq

namespace Field

def kind : Field → Kind
  | .char _ => .char
  | .byte _ => .byte
  | .short _ => .short
  | .long _ => .long
  | .single _ => .single
  | .coord _ => .coord
  | .angle _ => .angle
  | .text _ => .text

/-- A signed and an unsigned byte are written alike. -/
def writing : Field → Writing
  | .char n => .byte n
  | .byte n => .byte n
  | .short n => .short n
  | .long n => .long n
  | .single x => .single x
  | .coord x => .coord x
  | .angle x => .angle x
  | .text words => .text words

def bytes : Field → Bytes
  | .char n => (Bytes.ofInt32 n).take 1
  | .byte n => (Bytes.ofInt32 n).take 1
  | .short n => (Bytes.ofInt32 n).take 2
  | .long n => Bytes.ofInt32 n
  | .single x => Bytes.ofWord32 x.bits
  | .coord x => (Bytes.ofInt32 (coordWord x)).take 2
  | .angle x => (Bytes.ofInt32 (angleStep x.floorWord)).take 1
  | .text words => terminated words

/-- Only a text can hold what ends it. -/
def Clean : Field → Prop
  | .text words => Char.ofNat 0 ∉ words
  | _ => True

/-- A field as it comes back. A coordinate and an angle are read in the units they are written in. -/
def told : Field → Value
  | .char n => .number n.toInt8.toInt
  | .byte n => .number (n.toInt % 256)
  | .short n => .number n.toInt16.toInt
  | .long n => .number n.toInt
  | .single x => .single x
  | .coord x => .single (Single.ofScaled (coordWord x).toInt16.toInt (-3))
  | .angle x => .single (Single.ofScaled (45 * (angleStep x.floorWord).toInt) (-5))
  | .text words => .text words

end Field

namespace Kind

def read : Kind → Cursor → Value × Cursor
  | .char, c => Prod.map .number id c.readChar
  | .byte, c => Prod.map .number id c.readByte
  | .short, c => Prod.map .number id c.readShort
  | .long, c => Prod.map .number id c.readLong
  | .single, c => Prod.map .single id c.readSingle
  | .coord, c => Prod.map .single id c.readCoord
  | .angle, c => Prod.map .single id c.readAngle
  | .text, c => Prod.map .text id c.readText

end Kind

def writeFields : List Field → Act Buffer Unit
  | [] => pure ()
  | field :: rest => do
    field.writing.act
    writeFields rest

def readFields : List Kind → Cursor → List Value × Cursor
  | [], c => ([], c)
  | kind :: rest, c => Prod.map ((kind.read c).1 :: ·) id (readFields rest (kind.read c).2)

/-- A word is the number that its pattern spells, as a signed word. -/
theorem toInt_eq_bmod (n : Int32) : n.toInt = Int.bmod n.toUInt32.toNat (Nat.pow 256 4) :=
  BitVec.toInt_eq_toNat_bmod n.toBitVec

theorem signedWord_take {width : Nat} (within : width ≤ 4) (n : Int32) :
    Cursor.signedWord width ((Bytes.ofInt32 n).take width) = n.toInt.bmod (Nat.pow 256 width) := by
  have divides : Nat.pow 256 width ∣ Nat.pow 256 4 := Nat.pow_dvd_pow 256 within
  rw [Cursor.signedWord, Bytes.ofInt32, Bytes.ofWord32, Bytes.take_ofNat within, Bytes.toNat_ofNat, Int.natCast_emod,
    Int.emod_bmod, toInt_eq_bmod, Int.bmod_bmod_of_dvd divides]

theorem signedWord_ofInt32 (n : Int32) : Cursor.signedWord 4 (Bytes.ofInt32 n) = n.toInt := by
  have whole : (Bytes.ofInt32 n).take 4 = Bytes.ofInt32 n :=
    List.take_of_length_le (Nat.le_of_eq (Bytes.length_ofNat 4 _))
  rw [← whole, signedWord_take (by decide), toInt_eq_bmod, Int.bmod_bmod]

/-- The low byte of a pattern is that of the number, whatever its sign. -/
theorem toNat_emod_256 (n : Int32) : ((n.toUInt32.toNat % 256 : Nat) : Int) = n.toInt % 256 := by
  have word : n.toInt = Int.bmod n.toUInt32.toNat 4294967296 := toInt_eq_bmod n
  rw [Int.bmod_def] at word
  split at word <;> omega

theorem toNat_take_one (n : Int32) : (Bytes.toNat ((Bytes.ofInt32 n).take 1) : Int) = n.toInt % 256 := by
  rw [Bytes.ofInt32, Bytes.ofWord32, Bytes.take_ofNat (by decide), Bytes.toNat_ofNat, Nat.pow_eq, Nat.pow_one,
    toNat_emod_256]

theorem toInt_and_255 (n : Int32) : (n &&& 255).toInt = n.toInt % 256 := by
  have low : (n &&& 255).toUInt32.toNat = n.toUInt32.toNat % 256 := by
    rw [Int32.toUInt32_and, UInt32.toNat_and]
    exact Nat.and_two_pow_sub_one_eq_mod _ 8
  rw [toInt_eq_bmod, low, ← toNat_emod_256]
  change Int.bmod _ 4294967296 = _
  exact Int.bmod_eq_of_le (by omega) (by omega)

/-- A step of an angle fits into a byte. -/
theorem angleStep_emod (degrees : Int32) : (angleStep degrees).toInt % 256 = (angleStep degrees).toInt := by
  rw [angleStep, toInt_and_255]
  exact Int.emod_emod_of_dvd _ (Int.dvd_refl 256)

/-- A field of fixed width that is there is read, and the cursor goes behind it. -/
theorem Cursor.field_whole {c : Cursor} {bytes after : Bytes} {width : Nat} {α : Type} {value : α} (absent : α)
    (read : Bytes → α) (there : c.rest = bytes ++ after) (whole : bytes.length = width) (means : read bytes = value) :
    ∃ next, c.field width absent read = (value, next) ∧ next.rest = after ∧ next.short = c.short := by
  refine ⟨pass width c, ?_, ?_, short_pass width c⟩
  · rw [field_of_rest there whole, means]
  · rw [rest_pass, there]
    exact List.drop_left' whole

namespace Field

/-- A field is read as what it says, and reading goes on behind it. -/
theorem read_back {field : Field} {c : Cursor} {after : Bytes} (clean : field.Clean)
    (there : c.rest = field.bytes ++ after) :
    ∃ next, field.kind.read c = (field.told, next) ∧ next.rest = after ∧ next.short = c.short := by
  have oneLong (n : Int32) : ((Bytes.ofInt32 n).take 1).length = 1 := Bytes.length_take_ofInt32 (by decide) n
  have twoLong (n : Int32) : ((Bytes.ofInt32 n).take 2).length = 2 := Bytes.length_take_ofInt32 (by decide) n
  have signed8 (n : Int32) : Cursor.signedWord 1 ((Bytes.ofInt32 n).take 1) = n.toInt8.toInt :=
    (signedWord_take (by decide) n).trans (Int32.toInt_toInt8 n).symm
  have signed16 (n : Int32) : Cursor.signedWord 2 ((Bytes.ofInt32 n).take 2) = n.toInt16.toInt :=
    (signedWord_take (by decide) n).trans (Int32.toInt_toInt16 n).symm
  cases field with
  | char n =>
    obtain ⟨next, read, behind⟩ := Cursor.field_whole (-1) _ there (oneLong n) (signed8 n)
    exact ⟨next, congrArg (Prod.map Value.number id) read, behind⟩
  | byte n =>
    obtain ⟨next, read, behind⟩ := Cursor.field_whole (-1) (fun bytes => (Bytes.toNat bytes : Int)) there (oneLong n)
      (toNat_take_one n)
    exact ⟨next, congrArg (Prod.map Value.number id) read, behind⟩
  | short n =>
    obtain ⟨next, read, behind⟩ := Cursor.field_whole (-1) _ there (twoLong n) (signed16 n)
    exact ⟨next, congrArg (Prod.map Value.number id) read, behind⟩
  | long n =>
    obtain ⟨next, read, behind⟩ := Cursor.field_whole (-1) _ there (Bytes.length_ofNat 4 _) (signedWord_ofInt32 n)
    exact ⟨next, congrArg (Prod.map Value.number id) read, behind⟩
  | single x =>
    have means : (⟨Bytes.toWord32 (Bytes.ofWord32 x.bits)⟩ : Single) = x := by rw [Bytes.toWord32_ofWord32]
    obtain ⟨next, read, behind⟩ := Cursor.field_whole Single.minusOne (fun bytes => ⟨Bytes.toWord32 bytes⟩) there
      (Bytes.length_ofNat 4 _) means
    exact ⟨next, congrArg (Prod.map Value.single id) read, behind⟩
  | coord x =>
    obtain ⟨next, read, behind⟩ := Cursor.field_whole Single.zero
      (fun bytes => Single.ofScaled (Cursor.signedWord 2 bytes) (-3)) there (twoLong _)
      (congrArg (Single.ofScaled · (-3)) (signed16 (coordWord x)))
    exact ⟨next, congrArg (Prod.map Value.single id) read, behind⟩
  | angle x =>
    have step := (toNat_take_one (angleStep x.floorWord)).trans (angleStep_emod x.floorWord)
    obtain ⟨next, read, behind⟩ := Cursor.field_whole Single.zero
      (fun bytes => Single.ofScaled (45 * Bytes.toNat bytes) (-5)) there (oneLong _)
      (congrArg (fun n : Int => Single.ofScaled (45 * n) (-5)) step)
    exact ⟨next, congrArg (Prod.map Value.single id) read, behind⟩
  | text words =>
    have begins : c.rest = Text.encode words ++ 0 :: after := by
      rw [there]
      simp [bytes, terminated]
    obtain ⟨next, read, behind⟩ := Cursor.readText_of_rest (Text.zero_notin_encode clean) begins
    rw [Text.decode_encode] at read
    exact ⟨next, congrArg (Prod.map Value.text id) read, behind⟩

/-- A field with room for it is written behind what is there. -/
theorem write_fits (field : Field) {b : Buffer} (room : b.written.length + field.bytes.length ≤ b.capacity) :
    ∃ t, field.writing.act b = .ok () t ∧ Steady b t ∧ t.written = b.written ++ field.bytes ∧
      t.overflowed = b.overflowed := by
  have added : Added b (field.writing.kept b) field.writing.addition (field.writing.act b) :=
    field.writing.added b
  have own : field.writing.addition = .own field.bytes ∧ field.writing.kept b = b.written := by
    cases field <;> exact ⟨rfl, rfl⟩
  rw [own.1, own.2] at added
  obtain ⟨t, wrote, now, flag⟩ := added.fits room
  have steady := added.steady
  rw [wrote] at steady
  exact ⟨t, wrote, steady, now, flag⟩

end Field

theorem writeFields_fits (fields : List Field) {b : Buffer}
    (room : b.written.length + (fields.flatMap Field.bytes).length ≤ b.capacity) :
    ∃ t, writeFields fields b = .ok () t ∧ t.written = b.written ++ fields.flatMap Field.bytes ∧
      t.overflowed = b.overflowed := by
  induction fields generalizing b with
  | nil => exact ⟨b, rfl, by simp, rfl⟩
  | cons field rest ih =>
    rw [List.flatMap_cons, List.length_append] at room
    obtain ⟨m, first, steady, holds, flag⟩ := Field.write_fits field (b := b) (by omega)
    obtain ⟨t, others, now, last⟩ := ih (b := m) (by rw [holds, List.length_append, steady.capacity]; omega)
    refine ⟨t, (Act.bind_of_ok first).trans others, ?_, last.trans flag⟩
    rw [now, holds, List.flatMap_cons, List.append_assoc]

theorem readFields_of_rest {fields : List Field} (clean : ∀ field ∈ fields, field.Clean) {c : Cursor} {after : Bytes}
    (there : c.rest = fields.flatMap Field.bytes ++ after) :
    ∃ next, readFields (fields.map Field.kind) c = (fields.map Field.told, next) ∧ next.rest = after ∧
      next.short = c.short := by
  induction fields generalizing c with
  | nil => exact ⟨c, rfl, there, rfl⟩
  | cons field rest ih =>
    have begins : c.rest = field.bytes ++ (rest.flatMap Field.bytes ++ after) := by
      rw [there, List.flatMap_cons, List.append_assoc]
    obtain ⟨m, first, behind, still⟩ := Field.read_back (clean field List.mem_cons_self) begins
    obtain ⟨next, others, last, short⟩ := ih (fun other member => clean other (List.mem_cons_of_mem _ member)) behind
    refine ⟨next, ?_, last, short.trans still⟩
    rw [List.map_cons, readFields, first, others]
    rfl

/-- Fields written to an empty message with room for them all are read back in order, each as the value its width
holds, and after the last of them the message is used up. -/
theorem fields_read_back (fields : List Field) (clean : ∀ field ∈ fields, field.Clean) {b : Buffer} (new : b.written = [])
    (room : (fields.flatMap Field.bytes).length ≤ b.capacity) :
    ∃ t next, writeFields fields b = .ok () t ∧ t.overflowed = b.overflowed ∧
      readFields (fields.map Field.kind) (Cursor.ofBytes t.written) = (fields.map Field.told, next) ∧
      next.short = false ∧ next.remaining = 0 := by
  obtain ⟨t, wrote, now, flag⟩ := writeFields_fits fields (b := b) (by simpa [new] using room)
  rw [new, List.nil_append] at now
  have there : (Cursor.ofBytes t.written).rest = fields.flatMap Field.bytes ++ [] := by
    rw [List.append_nil, ← now]
    rfl
  obtain ⟨next, read, last, short⟩ := readFields_of_rest clean there
  exact ⟨t, next, wrote, flag, read, short, by rw [Cursor.remaining, last]; rfl⟩

/-- All kinds of fields, with numbers too large for their width, a nan with a payload, and a text beyond ASCII. -/
theorem fields_read_back_mixed :
    ∃ t next, writeFields [.char 255, .byte (-1), .short 98304, .long (-2147483648), .single ⟨0x7FA00001⟩,
        .coord ⟨0x42C8C7AE⟩, .angle ⟨0xC2B40000⟩, .text ['é', 'a'], .char 127] (Buffer.strict 20) = .ok () t ∧
      t.overflowed = false ∧
      readFields [.char, .byte, .short, .long, .single, .coord, .angle, .text, .char] (Cursor.ofBytes t.written) =
        ([.number (-1), .number 255, .number (-32768), .number (-2147483648), .single ⟨0x7FA00001⟩,
          .single ⟨0x42C8C000⟩, .single ⟨0x43870000⟩, .text ['é', 'a'], .number 127], next) ∧
      next.short = false ∧ next.remaining = 0 :=
  fields_read_back _ (by simp [Field.Clean]) rfl (by decide +kernel)

end Message

end GameHost
