import GameHost.Arguments
import GameHost.Disk.Path
import GameHost.Numeral

/-!
The options among the program's arguments: each is a name and the argument after it.
-/
namespace GameHost

structure Options where
  base : Path
  game : Option Path
  playback : Option Path
  record : Option Path
  connect : Option Text
  /-- How many frames to run, without a limit if it is not given. -/
  frames : Option Nat
  /-- The length of a frame in seconds. -/
  frameTime : Double
  deriving DecidableEq, Repr

namespace Options

/-- A tenth of a second. -/
def standardFrameTime : Double := ⟨0x3FB999999999999A⟩

/-- A frame count: digits, after a plus sign if there is one, of a number below `2 ^ 64`. -/
def count? (text : Text) : Option Nat :=
  let digits := if text.head? == some '+' then text.drop 1 else text
  let number := digits.foldl (fun n c => n * 10 + Numeral.digit c) 0
  if !digits.isEmpty && digits.all Char.isDigit && number < Nat.pow 2 64 then some number else none

/-- A frame time is a positive number; anything else counts as not given. -/
def frameTime? (text : Text) : Option Double :=
  let seconds := Double.ofSingle (Numeral.toSingle text)
  if Double.zero.less seconds then some seconds else none

def ofArguments (args : Arguments) : Options where
  base := (args.valueOf? "-basedir").getD "."
  game := args.valueOf? "-game"
  playback := args.valueOf? "-playback"
  record := args.valueOf? "-record"
  connect := args.valueOf? "-connect"
  frames := (args.valueOf? "-frames").bind count?
  frameTime := ((args.valueOf? "-frametime").bind frameTime?).getD standardFrameTime

/-- The folders that the options name. -/
def gameFolder? (options : Options) : Option Path := options.game.map (Path.join options.base)

end Options

end GameHost
