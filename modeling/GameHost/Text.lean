import GameHost.Text.Blank

/-!
Text is a list of characters. Command lines, names, values, addresses and paths are all texts; limits on
them count bytes of UTF-8, and letter case is ignored for the ASCII letters only.
-/
namespace GameHost

abbrev Text := List Char

instance : Coe String Text := ⟨String.toList⟩

namespace Text

/-- The length in bytes of UTF-8. -/
def size (text : Text) : Nat := text.foldl (fun n c => n + c.utf8Size) 0

/-- The text with its ASCII capitals made small. -/
def fold (text : Text) : Text := text.map Char.toLower

/-- Whether two names are the same name: letter by letter, without regard to ASCII case. -/
def same : Text → Text → Bool
  | [], [] => true
  | a :: rest, b :: others => a.toLower == b.toLower && same rest others
  | _, _ => false

def trimStart (text : Text) : Text := text.dropWhile isBlank

def trimEnd (text : Text) : Text := (text.reverse.dropWhile isBlank).reverse

def trim (text : Text) : Text := trimEnd (trimStart text)

/-- The texts one after another with a single space between neighbours. -/
def spaced (texts : List Text) : Text := List.intercalate [' '] texts

def ofNat (n : Nat) : Text := Nat.toDigits 10 n

def ofInt : Int → Text
  | .ofNat n => ofNat n
  | .negSucc n => '-' :: ofNat (n + 1)

@[simp] theorem size_nil : size [] = 0 := rfl

theorem foldl_size (text : Text) (n : Nat) :
    text.foldl (fun n c => n + c.utf8Size) n = n + size text := by
  induction text generalizing n with
  | nil => rfl
  | cons c rest ih =>
    simp only [size, List.foldl_cons]
    rw [ih, ih (0 + _)]
    omega

@[simp] theorem size_cons (c : Char) (text : Text) : size (c :: text) = c.utf8Size + size text := by
  rw [size, List.foldl_cons, foldl_size, Nat.zero_add]

@[simp] theorem size_append (a b : Text) : size (a ++ b) = size a + size b := by
  induction a with
  | nil => simp
  | cons c rest ih => simp [ih, Nat.add_assoc]

@[simp] theorem fold_append (a b : Text) : fold (a ++ b) = fold a ++ fold b := by simp [fold]

theorem same_iff {a b : Text} : same a b = true ↔ fold a = fold b := by
  induction a generalizing b with
  | nil => cases b <;> simp [same, fold]
  | cons a rest ih => cases b <;> simp_all [same, fold]

end Text

end GameHost
