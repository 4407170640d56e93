import GameHost.Message.Cursor

/-!
What a server's message tells the client to do. A message is a run of orders, each a byte that says which it
is and then what belongs to it.
-/
namespace GameHost.Message

inductive Order where
  | nothing
  /-- The server's time. -/
  | time (seconds : Single)
  /-- Show a text on the console. -/
  | print (text : Text)
  /-- Queue command text. -/
  | run (text : Text)
  /-- How far signing on has come. -/
  | signon (number : Int)
  /-- The server leaves. -/
  | leave
  /-- An order that is not known; nothing after it can be read. -/
  | illegible
  /-- The order before was cut short; nothing comes after it. -/
  | broken
  deriving DecidableEq, Repr

namespace Order

/-- The orders of a message from a cursor on, at most `fuel` of them. An order that is cut short is given
with the stand-ins for what is missing, and then said to be broken. -/
def readWithin : Nat → Cursor → List Order
  | 0, _ => []
  | fuel + 1, c =>
    if c.short then [.broken]
    else if c.rest.isEmpty then []
    else
      let (code, c) := c.readByte
      match code with
      | 1 => .nothing :: readWithin fuel c
      | 2 => [.leave]
      | 7 => let (seconds, c) := c.readSingle; .time seconds :: readWithin fuel c
      | 8 => let (text, c) := c.readText; .print text :: readWithin fuel c
      | 9 => let (text, c) := c.readText; .run text :: readWithin fuel c
      | 25 => let (number, c) := c.readByte; .signon number :: readWithin fuel c
      | _ => [.illegible]

/-- The orders of a message. Each takes a byte at least, and a broken one adds one. -/
def ofBytes (data : Bytes) : List Order := readWithin (data.length + 2) (Cursor.ofBytes data)

end Order

end GameHost.Message
