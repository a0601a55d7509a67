/-!
# Positions in a text

Places in a text are byte offsets into its UTF-8 form, or a line and a column, which counts
characters. This module holds the arithmetic of offsets: the size of a text, the test whether an
offset lies between two characters, and the character in which an offset falls.
-/

namespace ElementLint

/-- A place in a text; line and column count from zero. -/
structure Position where
  line : Nat
  column : Nat
  deriving DecidableEq, Repr, Inhabited

namespace Text

/-- The number of bytes of a text. -/
def byteSize : List Char → Nat
  | [] => 0
  | c :: rest => c.utf8Size + byteSize rest

/-- Whether `offset` lies at an end of the text or between two of its characters. -/
def isBoundary : List Char → Nat → Bool
  | _, 0 => true
  | [], _ + 1 => false
  | c :: rest, offset + 1 => c.utf8Size ≤ offset + 1 && isBoundary rest (offset + 1 - c.utf8Size)

/-- The index of the character that holds the byte at `offset`; the number of characters if there
is none. -/
def charIndex : List Char → Nat → Nat
  | [], _ => 0
  | c :: rest, offset => if offset < c.utf8Size then 0 else 1 + charIndex rest (offset - c.utf8Size)

/-- The lines of a text without their ends. A line ends at a line feed, to which a carriage return
right before it belongs; an end of line at the end of the text starts no further line. -/
def lines : List Char → List (List Char)
  | [] => []
  | '\n' :: rest => [] :: lines rest
  | '\r' :: '\n' :: rest => [] :: lines rest
  | c :: rest =>
    match rest, lines rest with
    | [], _ => [[c]]
    | _ :: _, [] => [[c]]
    | _ :: _, line :: more => (c :: line) :: more

end Text

end ElementLint
