import ElementLint.Text.Extent

/-!
# Source maps

A `SourceMap` is the table of the offsets at which the lines of a text start. The line of an offset
is found in it by binary search (`SourceMap.search`), and its column by counting the characters from
the start of the line.
-/

namespace ElementLint

/-- The offsets at which the lines of a text start. -/
structure SourceMap where
  lineStarts : Array Nat
  deriving DecidableEq, Repr, Inhabited

namespace SourceMap

/-- Looks for a number in an increasing table, from the place `low` up to the place `high`. Gives
the place where it stands, or as an error the place where it could be inserted. The first number
bounds the steps. -/
def search (table : Array Nat) (wanted : Nat) : Nat → Nat → Nat → Except Nat Nat
  | 0, low, _ => .error low
  | count + 1, low, high =>
    if low < high then
      let middle := low + (high - low) / 2
      let entry := table.getD middle 0
      if entry = wanted then .ok middle
      else if entry < wanted then search table wanted count (middle + 1) high
      else search table wanted count low middle
    else .error low

/-- The offsets right behind the line feeds of a text that starts at the byte `start`. -/
def startsFrom (start : Nat) : List Char → List Nat
  | [] => []
  | c :: rest =>
    let next := start + c.utf8Size
    if c = '\n' then next :: startsFrom next rest else startsFrom next rest

/-- The source map of a text. The first line starts with the text, and every other one behind a line
feed. -/
def ofText (text : List Char) : SourceMap :=
  ⟨(0 :: startsFrom 0 text).toArray⟩

/-- The line of an offset: the last one that does not start behind it. -/
def lineOf (map : SourceMap) (offset : Nat) : Nat :=
  match search map.lineStarts offset map.lineStarts.size 0 map.lineStarts.size with
  | .ok line => line
  | .error line => line - 1

/-- The position of an offset in the text of a source map. The column is zero if the offset is past
the end of the text or inside a character. -/
def position (map : SourceMap) (text : List Char) (offset : Nat) : Position :=
  let line := map.lineOf offset
  let lineStart := map.lineStarts.getD line 0
  ⟨line, ((Text.slice? text ⟨lineStart, offset⟩).map List.length).getD 0⟩

end SourceMap

/-- The position of a byte offset in a text. -/
def Position.ofOffset (text : List Char) (offset : Nat) : Position :=
  (SourceMap.ofText text).position text offset

end ElementLint
