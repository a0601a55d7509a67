import ElementLint.Text.Position

/-!
# Cursors

A `Cursor` is a place in a text together with the text from there on. The functions that move it
forward never lengthen that text (`length_skipWhile_le`, `length_drop_le`, `length_skipTo_le`,
`length_skipPast_le`).
-/

namespace ElementLint.Span

/-- A place in a text and what follows it. -/
structure Cursor where
  /-- The place as a byte offset. -/
  offset : Nat
  rest : List Char
  deriving DecidableEq, Repr, Inhabited

namespace Cursor

/-- Moves over the characters at the start of a text that a predicate accepts. -/
def skipFrom (p : Char → Bool) : Nat → List Char → Cursor
  | offset, [] => ⟨offset, []⟩
  | offset, c :: rest => if p c then skipFrom p (offset + c.utf8Size) rest else ⟨offset, c :: rest⟩

/-- Moves over the characters that a predicate accepts. -/
def skipWhile (p : Char → Bool) (cursor : Cursor) : Cursor :=
  skipFrom p cursor.offset cursor.rest

/-- Moves over a number of characters. -/
def drop (n : Nat) (cursor : Cursor) : Cursor :=
  ⟨cursor.offset + Text.byteSize (cursor.rest.take n), cursor.rest.drop n⟩

/-- Moves to the first place of a text from which on a predicate holds, or to its end. -/
def seekFrom (found : List Char → Bool) : Nat → List Char → Cursor
  | offset, [] => ⟨offset, []⟩
  | offset, c :: rest =>
    if found (c :: rest) then ⟨offset, c :: rest⟩ else seekFrom found (offset + c.utf8Size) rest

/-- Moves to the first place from which on a predicate holds, or to the end. -/
def skipTo (found : List Char → Bool) (cursor : Cursor) : Cursor :=
  seekFrom found cursor.offset cursor.rest

/-- Moves past the first occurrence of a word, or to the end. -/
def skipPast (word : List Char) (cursor : Cursor) : Cursor :=
  (cursor.skipTo word.isPrefixOf).drop word.length

theorem length_skipFrom_le (p : Char → Bool) (offset : Nat) (text : List Char) :
    (skipFrom p offset text).rest.length ≤ text.length := by
  induction text generalizing offset with
  | nil => simp [skipFrom]
  | cons c rest ih =>
    rw [skipFrom]
    split
    · exact Nat.le_succ_of_le (ih _)
    · exact Nat.le_refl _

theorem length_skipWhile_le (p : Char → Bool) (cursor : Cursor) :
    (cursor.skipWhile p).rest.length ≤ cursor.rest.length :=
  length_skipFrom_le p _ _

theorem length_drop_le (n : Nat) (cursor : Cursor) :
    (cursor.drop n).rest.length ≤ cursor.rest.length := by
  simp [drop]

theorem length_seekFrom_le (found : List Char → Bool) (offset : Nat) (text : List Char) :
    (seekFrom found offset text).rest.length ≤ text.length := by
  induction text generalizing offset with
  | nil => simp [seekFrom]
  | cons c rest ih =>
    rw [seekFrom]
    split
    · exact Nat.le_refl _
    · exact Nat.le_succ_of_le (ih _)

theorem length_skipTo_le (found : List Char → Bool) (cursor : Cursor) :
    (cursor.skipTo found).rest.length ≤ cursor.rest.length :=
  length_seekFrom_le found _ _

theorem length_skipPast_le (word : List Char) (cursor : Cursor) :
    (cursor.skipPast word).rest.length ≤ cursor.rest.length :=
  Nat.le_trans (length_drop_le _ _) (length_skipTo_le _ _)

end Cursor

end ElementLint.Span
