/-!
# Blank characters

Two classes of blank characters are in use. The parts of a tag are separated by the five ASCII
blanks (`isTagBlank`); the parts of a selector and the names in a class list are separated by any
character with the Unicode property White_Space (`isBlank`).
-/

namespace ElementLint.Text

/-- The blanks that separate the parts of a tag: space, tab, line feed, form feed and carriage
return. -/
def isTagBlank (c : Char) : Bool :=
  c == ' ' || c == '\t' || c == '\n' || c == '\x0c' || c == '\r'

/-- The characters with the Unicode property White_Space. -/
def isBlank (c : Char) : Bool :=
  let n := c.toNat
  (9 ≤ n && n ≤ 13) || n == 0x20 || n == 0x85 || n == 0xA0 || n == 0x1680 ||
    (0x2000 ≤ n && n ≤ 0x200A) || n == 0x2028 || n == 0x2029 || n == 0x202F || n == 0x205F ||
    n == 0x3000

/-- Cuts a text at every character that `isSeparator` accepts; the separators are dropped, so there
is one piece more than there are separators. -/
def pieces (isSeparator : Char → Bool) : List Char → List (List Char)
  | [] => [[]]
  | c :: rest =>
    match pieces isSeparator rest with
    | [] => [[c]]
    | piece :: more => if isSeparator c then [] :: piece :: more else (c :: piece) :: more

/-- The words of a text: its maximal runs without a blank. -/
def words (text : List Char) : List (List Char) :=
  (pieces isBlank text).filter (fun word => !word.isEmpty)

/-- A text without the blanks at its ends. -/
def trim (text : List Char) : List Char :=
  ((text.dropWhile isBlank).reverse.dropWhile isBlank).reverse

/-- A text with the ASCII capitals made small. -/
def lower (text : List Char) : List Char :=
  text.map Char.toLower

/-- Whether two names agree up to the case of ASCII letters. -/
def sameName (a b : String) : Bool :=
  lower a.toList == lower b.toList

end ElementLint.Text
