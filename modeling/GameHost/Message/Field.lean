import GameHost.Message.Buffer

/-!
How numbers are written into messages. Integers are cut to the width of their field; coordinates are in
eighths of a unit and angles in 256ths of a turn.
-/
namespace GameHost.Message

/-- A coordinate in eighths, rounded to the nearest with a half away from zero. -/
def coordWord (x : Single) : Int32 := x.roundWord 8

/-- The step of 256 that a whole number of degrees falls into, counted towards zero. -/
def angleStep (degrees : Int32) : Int32 := (degrees * 256 / 360) &&& 255

namespace Buffer

/-- The low byte of a number. -/
def writeByte (n : Int32) : Act Buffer Unit := write ((Bytes.ofInt32 n).take 1)

/-- The low two bytes of a number. -/
def writeShort (n : Int32) : Act Buffer Unit := write ((Bytes.ofInt32 n).take 2)

def writeLong (n : Int32) : Act Buffer Unit := write (Bytes.ofInt32 n)

def writeSingle (x : Single) : Act Buffer Unit := write (Bytes.ofWord32 x.bits)

def writeCoord (x : Single) : Act Buffer Unit := writeShort (coordWord x)

def writeAngle (x : Single) : Act Buffer Unit := writeByte (angleStep x.floorWord)

end Buffer

end GameHost.Message
