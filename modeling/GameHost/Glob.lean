import GameHost.Text.Unicode

/-!
Patterns of the listing commands. `?` stands for any byte and `*` for any bytes; other bytes stand for
themselves, without regard to ASCII case. A byte of the text that equals the pattern's byte is taken as
itself first, a `*` in the text included; a failure after a `*` is tried again with the last `*` one byte
longer, never with an earlier one.
-/
namespace GameHost.Glob

def star : UInt8 := 42

def any : UInt8 := 63

def lower (b : UInt8) : UInt8 := if 65 ≤ b && b ≤ 90 then b + 32 else b

def sameByte (a b : UInt8) : Bool := lower a == lower b

/-- Try a match at every place of a text in turn, the later places as what else can be tried. -/
def seek (fits : Bytes → (Unit → Bool) → Bool) : Bytes → Bool
  | [] => fits [] fun _ => false
  | b :: rest => fits (b :: rest) fun _ => seek fits rest

/-- Whether a text fits a pattern, given the answer of what else can be tried when it does not. -/
def fits : Bytes → Bytes → (Unit → Bool) → Bool
  | [], [], _ => true
  | [], _ :: _, otherwise => otherwise ()
  | p :: pattern, [], _ => (p :: pattern).all (· == star)
  | p :: pattern, b :: text, otherwise =>
    if p == any || sameByte p b then fits pattern text otherwise
    else if p == star then seek (fits pattern) (b :: text)
    else otherwise ()

/-- Whether the whole text is described by the pattern. -/
def matchesText (pattern text : Text) : Bool :=
  fits (Text.encode pattern) (Text.encode text) fun _ => false

end GameHost.Glob
