import GameHost.Bytes
import GameHost.Text

/-!
UTF-8. Reading never fails: bytes that cannot begin or continue a character are replaced, one
replacement character for every longest run that begins a character and then breaks off.
-/
namespace GameHost.Text

def encode (text : Text) : Bytes := text.flatMap String.utf8EncodeChar

/-- The character that stands for bytes which are no text. -/
def replacement : Char := Char.ofNat 0xFFFD

/-- A character of which some bytes have been read. -/
structure Partial where
  /-- How many bytes are still to come. -/
  due : Nat
  /-- The bits of the code point read so far. -/
  bits : Nat
  /-- The least and the greatest value that the next byte may have. -/
  low : UInt8
  high : UInt8

/-- What a byte outside ASCII begins. The narrower ranges rule out overlong forms, surrogates and code
points past the last plane. -/
def lead (b : UInt8) : Option Partial :=
  if 0xC2 ≤ b && b ≤ 0xDF then some ⟨1, b.toNat % 32, 0x80, 0xBF⟩
  else if b == 0xE0 then some ⟨2, 0, 0xA0, 0xBF⟩
  else if b == 0xED then some ⟨2, 13, 0x80, 0x9F⟩
  else if 0xE1 ≤ b && b ≤ 0xEF then some ⟨2, b.toNat % 16, 0x80, 0xBF⟩
  else if b == 0xF0 then some ⟨3, 0, 0x90, 0xBF⟩
  else if 0xF1 ≤ b && b ≤ 0xF3 then some ⟨3, b.toNat % 8, 0x80, 0xBF⟩
  else if b == 0xF4 then some ⟨3, 4, 0x80, 0x8F⟩
  else none

/-- What the first byte of a character settles, and the character under way after it. -/
def start (b : UInt8) : Text × Option Partial :=
  if b < 0x80 then ([Char.ofNat b.toNat], none)
  else match lead b with
    | some under => ([], some under)
    | none => ([replacement], none)

/-- The text of some bytes, after a character under way if there is one. -/
def decodeFrom : Option Partial → Bytes → Text
  | none, [] => []
  | some _, [] => [replacement]
  | none, b :: rest => (start b).1 ++ decodeFrom (start b).2 rest
  | some under, b :: rest =>
    if under.low ≤ b && b ≤ under.high then
      let bits := under.bits * 64 + b.toNat % 64
      if under.due ≤ 1 then Char.ofNat bits :: decodeFrom none rest
      else decodeFrom (some ⟨under.due - 1, bits, 0x80, 0xBF⟩) rest
    else replacement :: ((start b).1 ++ decodeFrom (start b).2 rest)

/-- Decode with the text so far at hand, its last character first. -/
def decodeOnto : Text → Option Partial → Bytes → Text
  | done, none, [] => done.reverse
  | done, some _, [] => (replacement :: done).reverse
  | done, none, b :: rest =>
    if b < 0x80 then decodeOnto (Char.ofNat b.toNat :: done) none rest
    else decodeOnto ((start b).1 ++ done) (start b).2 rest
  | done, some under, b :: rest =>
    if under.low ≤ b && b ≤ under.high then
      let bits := under.bits * 64 + b.toNat % 64
      if under.due ≤ 1 then decodeOnto (Char.ofNat bits :: done) none rest
      else decodeOnto done (some ⟨under.due - 1, bits, 0x80, 0xBF⟩) rest
    else decodeOnto ((start b).1 ++ replacement :: done) (start b).2 rest

def decode (bytes : Bytes) : Text := decodeOnto [] none bytes

theorem reverse_start (b : UInt8) : (start b).1.reverse = (start b).1 := by
  unfold start
  split
  · rfl
  · split <;> rfl

theorem decodeOnto_eq (done : Text) (state : Option Partial) (bytes : Bytes) :
    decodeOnto done state bytes = done.reverse ++ decodeFrom state bytes := by
  induction bytes generalizing done state with
  | nil => cases state <;> simp [decodeOnto, decodeFrom]
  | cons b rest ih =>
    cases state with
    | none =>
      by_cases ascii : b < 0x80
      · simp [decodeOnto, decodeFrom, ascii, ih, start]
      · simp [decodeOnto, decodeFrom, ascii, ih, reverse_start]
    | some under =>
      simp only [decodeOnto, decodeFrom]
      split
      · split <;> simp [ih]
      · simp [ih, reverse_start]

theorem decode_eq (bytes : Bytes) : decode bytes = decodeFrom none bytes := decodeOnto_eq [] none bytes

end GameHost.Text
