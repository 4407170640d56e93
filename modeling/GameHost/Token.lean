import GameHost.Text

/-!
Words of command text. A word is a quoted run, one of six punctuation characters, or a run of characters
above the space that are none of those; comments start at `//` and end with their line. Limits and classes
are on ASCII characters, so every cut falls between characters.
-/
namespace GameHost.Token

/-- A word shorter than this is kept whole. -/
def lengthLimit : Nat := 1024

/-- Characters that are a word by themselves. -/
def isPunctuation (c : Char) : Bool :=
  c == '{' || c == '}' || c == '(' || c == ')' || c == '\'' || c == ':'

/-- Characters that separate words: the space and every control character below it. -/
def isGap (c : Char) : Bool := c.toNat ≤ 32

def isWordChar (c : Char) : Bool := !isGap c && !isPunctuation c

/-- The longest run of characters from the start that has at most `limit` bytes. -/
def within : Nat → Text → Text
  | _, [] => []
  | limit, c :: rest => if c.utf8Size ≤ limit then c :: within (limit - c.utf8Size) rest else []

/-- A word as it is kept: whole, or cut to less than the limit if it is too long. -/
def clip (word : Text) : Text :=
  if Text.size word < lengthLimit then word else within (lengthLimit - 1) word

/-- The text after its leading gaps and comments. The flag says that a comment is open. -/
def skip : Bool → Text → Text
  | _, [] => []
  | true, c :: rest => skip (c != '\n') rest
  | false, c :: rest =>
    if isGap c then skip false rest
    else if c == '/' && rest.head? == some '/' then skip true rest
    else c :: rest

/-- A word and what follows it. There is no rest when the text ends with the word. -/
structure Scan where
  word : Text
  rest : Option Text
  deriving DecidableEq, Repr

/-- The rest of a text, if any of it is left. -/
def left (text : Text) : Option Text := if text.isEmpty then none else some text

/-- The first word of a text. The word is empty when the text has none, and for an empty pair of quotes. -/
def scan (text : Text) : Scan :=
  match skip false text with
  | [] => ⟨[], none⟩
  | c :: rest =>
    if c == '"' then ⟨clip (rest.takeWhile (· != '"')), left (rest.dropWhile (· != '"') |>.drop 1)⟩
    else if isPunctuation c then ⟨[c], left rest⟩
    else ⟨clip ((c :: rest).takeWhile isWordChar), left ((c :: rest).dropWhile isWordChar)⟩

/-- The scans of a text, each of the rest of the one before; at most `fuel` of them. -/
def scansWithin : Nat → Text → List Scan
  | 0, _ => []
  | fuel + 1, text =>
    let first := scan text
    match first.rest with
    | none => [first]
    | some rest => first :: scansWithin fuel rest

/-- All scans of a text, the last one being the one that leaves no rest. -/
def scans (text : Text) : List Scan := scansWithin (text.length + 1) text

end GameHost.Token
