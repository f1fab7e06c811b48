import Mathlib.Data.List.DropRight

/-!
# Functions of Go's package `strings`

Texts are lists of characters. The case tables of package `unicode` are left open on the characters
that are not ASCII.
-/

namespace Go

abbrev Text := List Char

/-- The tables of package `unicode` on the characters that are not ASCII: `ToUpper`, `ToLower`, and
a character that stands for the class of simple case folding. -/
class Unicode where
  upper : Char → Char
  lower : Char → Char
  fold : Char → Char

/-- Tables that change nothing, as good as the real ones on ASCII texts. -/
abbrev asciiTables : Unicode := ⟨id, id, id⟩

def ascii (c : Char) : Bool := c.toNat < 0x80

/-- `unicode.IsSpace` -/
def isSpace (c : Char) : Bool :=
  [0x09, 0x0a, 0x0b, 0x0c, 0x0d, 0x20, 0x85, 0xa0, 0x1680, 0x2028, 0x2029, 0x202f, 0x205f,
    0x3000].contains c.toNat || 0x2000 ≤ c.toNat && c.toNat ≤ 0x200a

/-- `strings.TrimSpace` -/
def trimSpace (text : Text) : Text := (text.dropWhile isSpace).rdropWhile isSpace

section Case

variable [Unicode]

/-- `strings.ToUpper` -/
def toUpper (text : Text) : Text :=
  text.map fun c => if ascii c then c.toUpper else Unicode.upper c

/-- `strings.ToLower` -/
def toLower (text : Text) : Text :=
  text.map fun c => if ascii c then c.toLower else Unicode.lower c

/-- `strings.EqualFold` -/
def equalFold (a b : Text) : Bool :=
  let fold (c : Char) := if ascii c then c.toLower else Unicode.fold c
  a.map fold = b.map fold

end Case

/-- Lower-case letters and digits, and between them also the separators. The symbols are characters or bytes;
`code` is their number. -/
def label {α : Type} [BEq α] (code : α → Nat) (separators : List α) (text : List α) : Bool :=
  let alphanumeric (c : α) := 0x61 ≤ code c && code c ≤ 0x7a || 0x30 ≤ code c && code c ≤ 0x39
  text.head?.any alphanumeric && text.getLast?.any alphanumeric &&
    text.all fun c => alphanumeric c || separators.contains c

end Go
