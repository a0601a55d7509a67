import ElementLint.Span.Basic
import ElementLint.Span.Cursor
import ElementLint.Text.Blank

/-!
# Start tags in a text

`TagSpan.ofStartTag` finds the parts of the start tag at a place: its name, its attributes with
their values, and its end. A tag that the end of the text cuts off ends there.
-/

namespace ElementLint.Span

open Text

/-- The characters of a tag name. -/
def inTagName (c : Char) : Bool :=
  !isTagBlank c && c != '/' && c != '>'

/-- The characters of an attribute name. -/
def inAttributeName (c : Char) : Bool :=
  !isTagBlank c && c != '=' && c != '>' && c != '/'

/-- The characters of an attribute value without quotes. -/
def inBareValue (c : Char) : Bool :=
  !isTagBlank c && c != '>'

/-- Moves over the blanks and slashes before an attribute, but not over the slash of `/>`. -/
def skipBetween : Nat → List Char → Cursor
  | offset, [] => ⟨offset, []⟩
  | offset, '/' :: '>' :: rest => ⟨offset, '/' :: '>' :: rest⟩
  | offset, c :: rest =>
    if isTagBlank c || c == '/' then skipBetween (offset + c.utf8Size) rest
    else ⟨offset, c :: rest⟩

/-- The value at a cursor that stands right after an equals sign, and the place after it. -/
def valueAt (cursor : Cursor) : Option Extent × Cursor :=
  let first := cursor.skipWhile isTagBlank
  match first.rest with
  | [] => (none, first)
  | c :: _ =>
    let after :=
      if c = '"' ∨ c = '\'' then (first.drop 1).skipPast [c] else first.skipWhile inBareValue
    (some ⟨first.offset, after.offset⟩, after)

/-- The attribute at a cursor that stands before its first character, and the place after it. The
first character belongs to the name whatever it is; an equals sign there is all of it. -/
def attributeAt (first : Char) (cursor : Cursor) : AttributeSpan × Cursor :=
  -- an equals sign without a name before it is a name of its own
  let tail := if first = '=' then [] else (cursor.rest.drop 1).takeWhile inAttributeName
  let name := String.ofList (lower (first :: tail))
  let afterName := cursor.drop (tail.length + 1)
  let equals := afterName.skipWhile isTagBlank
  match equals.rest with
  | '=' :: _ =>
    let (value, after) := valueAt (equals.drop 1)
    (⟨name, value⟩, after)
  | _ => (⟨name, none⟩, afterName)

theorem length_skipBetween_le (offset : Nat) (text : List Char) :
    (skipBetween offset text).rest.length ≤ text.length := by
  fun_induction skipBetween offset text with
  | case1 => simp
  | case2 => simp
  | case3 offset c rest _ _ ih => exact Nat.le_succ_of_le ih
  | case4 => simp

theorem length_valueAt_le (cursor : Cursor) :
    (valueAt cursor).2.rest.length ≤ cursor.rest.length := by
  have blanks := cursor.length_skipWhile_le isTagBlank
  unfold valueAt
  dsimp only
  split
  · exact blanks
  · refine Nat.le_trans ?_ blanks
    split
    · exact Nat.le_trans (Cursor.length_skipPast_le _ _) (Cursor.length_drop_le _ _)
    · exact Cursor.length_skipWhile_le _ _

theorem length_attributeAt_lt (first : Char) (cursor : Cursor) (h : cursor.rest ≠ []) :
    (attributeAt first cursor).2.rest.length < cursor.rest.length := by
  have pos : 0 < cursor.rest.length := List.length_pos_iff.2 h
  have dropped : ∀ n, (cursor.drop (n + 1)).rest.length < cursor.rest.length := by
    intro n
    simp only [Cursor.drop, List.length_drop]
    omega
  unfold attributeAt
  dsimp only
  split
  · exact Nat.lt_of_le_of_lt
      (Nat.le_trans (length_valueAt_le _)
        (Nat.le_trans (Cursor.length_drop_le _ _) (Cursor.length_skipWhile_le _ _)))
      (dropped _)
  · exact dropped _

/-- The attributes from a cursor on up to the end of the tag, and the place after the tag. -/
def attributesAt (cursor : Cursor) : List AttributeSpan × Cursor :=
  let here := skipBetween cursor.offset cursor.rest
  match _h : here.rest with
  | [] => ([], here)
  | '>' :: _ => ([], here.drop 1)
  | '/' :: _ => ([], here.drop 2)
  | first :: _ =>
    let found := attributeAt first here
    let (more, after) := attributesAt found.2
    (found.1 :: more, after)
termination_by cursor.rest.length
decreasing_by
  refine Nat.lt_of_lt_of_le (length_attributeAt_lt _ _ (by simp [here, _h])) ?_
  exact length_skipBetween_le _ _

theorem length_attributesAt_le (cursor : Cursor) :
    (attributesAt cursor).2.rest.length ≤ cursor.rest.length := by
  fun_induction attributesAt cursor with
  | case1 cursor here h => exact length_skipBetween_le _ _
  | case2 cursor here _ h =>
    exact Nat.le_trans (Cursor.length_drop_le _ _) (length_skipBetween_le _ _)
  | case3 cursor here _ h =>
    exact Nat.le_trans (Cursor.length_drop_le _ _) (length_skipBetween_le _ _)
  | case4 cursor here first _ _ _ h found more after eq ih =>
    rw [eq] at ih
    refine Nat.le_trans ih (Nat.le_of_lt ?_)
    exact Nat.lt_of_lt_of_le (length_attributeAt_lt _ _ (by simp [h]))
      (length_skipBetween_le _ _)

namespace TagSpan

/-- The start tag whose `<` is at `start` and followed by `text`, and the place after it. Until its
end tag is known, the element ends where its start tag does. -/
def ofStartTag (start : Nat) (text : List Char) : TagSpan × Cursor :=
  let name := text.takeWhile inTagName
  let nameEnd := (Cursor.mk (start + 1) text).drop name.length
  let (attributes, after) := attributesAt nameEnd
  ({ name := String.ofList (lower name)
     start
     nameEnd := nameEnd.offset
     startTagEnd := after.offset
     stop := after.offset
     attributes }, after)

theorem length_ofStartTag_le (start : Nat) (text : List Char) :
    (ofStartTag start text).2.rest.length ≤ text.length := by
  unfold ofStartTag
  exact Nat.le_trans (length_attributesAt_le _) (Cursor.length_drop_le _ _)

end TagSpan

end ElementLint.Span
