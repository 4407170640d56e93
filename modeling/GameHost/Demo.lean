import GameHost.Disk.Stream
import GameHost.Numeral

/-!
Demo files. The first line is the number of the music track to force, in decimal; then come frames, one for
every message of the server: its length, the three view angles at that moment, and its bytes, every number
in four bytes, lowest first.
-/
namespace GameHost

structure Angles where
  pitch : Single
  yaw : Single
  roll : Single
  deriving DecidableEq, Repr

def Angles.zero : Angles := ⟨Single.zero, Single.zero, Single.zero⟩

namespace Demo

def extension : Text := ".dem"

structure Frame where
  angles : Angles
  data : Bytes
  deriving DecidableEq, Repr

/-- The longest message of a frame that is read back. -/
def messageLimit : Nat := 8000

namespace Frame

/-- The pieces in which a frame is written. -/
def pieces (frame : Frame) : List Bytes :=
  [Bytes.ofInt32 (Int32.ofNat frame.data.length), Bytes.ofWord32 frame.angles.pitch.bits,
   Bytes.ofWord32 frame.angles.yaw.bits, Bytes.ofWord32 frame.angles.roll.bits, frame.data]

def encode (frame : Frame) : Bytes := frame.pieces.flatten

end Frame

/-- Read one number, if it is wholly there. -/
def readWord (r : Reader) (disk : Disk) : Option UInt32 × Reader :=
  let (bytes, r) := r.read 4 disk
  (bytes.map Bytes.toWord32, r)

/-- The three angles, if they are wholly there. -/
def readAngles (r : Reader) (disk : Disk) : Option Angles × Reader :=
  match readWord r disk with
  | (none, r) => (none, r)
  | (some pitch, r) =>
    match readWord r disk with
    | (none, r) => (none, r)
    | (some yaw, r) =>
      match readWord r disk with
      | (none, r) => (none, r)
      | (some roll, r) => (some ⟨⟨pitch⟩, ⟨yaw⟩, ⟨roll⟩⟩, r)

/-- Read one frame. There is none where the file ends, be it within a frame; a length that no frame can
have is a fault. -/
def readFrame (r : Reader) (disk : Disk) : Except Fault (Option Frame) × Reader :=
  match readWord r disk with
  | (none, r) => (.ok none, r)
  | (some word, r) =>
    let length := word.toInt32
    if Int32.ofNat messageLimit < length then (.error (.frameTooLong length), r)
    else if length < 0 then (.error (.frameNegative length), r)
    else
      match readAngles r disk with
      | (none, r) => (.ok none, r)
      | (some angles, r) =>
        match r.read length.toNatClampNeg disk with
        | (none, r) => (.ok none, r)
        | (some data, r) => (.ok (some ⟨angles, data⟩), r)

/-- The line of a track number. -/
def trackLine (track : Int32) : Bytes := Text.encode (Text.ofInt track.toInt ++ ['\n'])

/-- The track number in a line: its digits in order, negated by a minus sign anywhere in it. -/
def trackOf (line : Bytes) : Int32 :=
  let digits := line.filter fun b => 48 ≤ b && b ≤ 57
  let size := Numeral.word 10 (digits.map fun b => b.toNat - 48)
  if line.contains 45 then -size else size

/-- What is being done with demo files. An open file belongs to what is done with it. -/
inductive Activity where
  | idle
  | recording (file : Writer)
  | playing (file : Reader)
  deriving DecidableEq, Repr

namespace Activity

def isRecording : Activity → Bool
  | .recording _ => true
  | _ => false

def isPlaying : Activity → Bool
  | .playing _ => true
  | _ => false

/-- Let go of the file. -/
def close (activity : Activity) (disk : Disk) : Disk :=
  match activity with
  | .recording file => file.close disk
  | _ => disk

end Activity

end Demo

end GameHost
