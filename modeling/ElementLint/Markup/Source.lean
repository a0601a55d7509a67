/-!
# Sources of markup

A text of markup is taken in part by part. A part is a block of 4096 bytes, but a character that
lies in two blocks starts a part of at most four bytes, after which the second block goes on as
another part. A byte order mark at the start of a part is dropped, wherever in the markup that is.
`Source.ofText` joins what is left of the parts and records where each starts.
-/

namespace ElementLint.Markup

/-- A text without a byte order mark at its start. -/
def dropMark : List Char → List Char
  | '\ufeff' :: rest => rest
  | text => text

/-- The number of bytes of a block. -/
def blockSize : Nat := 4096

/-- Puts a character in front of the first part. -/
def extendFirst (c : Char) : List (List Char) → List (List Char)
  | [] => [[c]]
  | part :: parts => (c :: part) :: parts

/-- The number of bytes of a part that starts with a character of two blocks. -/
def seamSize : Nat := 4

/-- The bytes that a new part may hold and the bytes of its block after them. The arguments are the
bytes that the part before it left unused and the bytes of that part's block after them. -/
def nextPart (room beyond : Nat) : Nat × Nat :=
  if beyond ≠ 0 then (room + beyond, 0)
  else if room = 0 then (blockSize, 0)
  else (seamSize, blockSize + room - seamSize)

/-- The parts of a text whose first part may hold `room` bytes, with `beyond` bytes of its block
after them. -/
def partsAfter (room beyond : Nat) : List Char → List (List Char)
  | [] => [[]]
  | c :: text =>
    if c.utf8Size ≤ room then extendFirst c (partsAfter (room - c.utf8Size) beyond text)
    else
      let (room, beyond) := nextPart room beyond
      [] :: extendFirst c (partsAfter (room - c.utf8Size) beyond text)

/-- A text as it is taken in. -/
structure Source where
  text : List Char
  /-- The lengths that the text has left where a part starts. -/
  starts : List Nat
  deriving DecidableEq, Repr

/-- Puts a part in front of a source. -/
def Source.cons (part : List Char) (source : Source) : Source :=
  ⟨part ++ source.text, (part.length + source.text.length) :: source.starts⟩

/-- The source that a text gives. -/
def Source.ofText (text : List Char) : Source :=
  (partsAfter blockSize 0 text).foldr (fun part => Source.cons (dropMark part)) ⟨[], []⟩

end ElementLint.Markup
