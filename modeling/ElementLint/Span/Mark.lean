import ElementLint.Span.StartTag

/-!
# Marks

`Mark.scan` finds the start tags and end tags of a text in their order. Comments, declarations and
the text of elements whose content is text hold no tags.
-/

namespace ElementLint.Span

open Text

/-- A tag in a text. -/
inductive Mark where
  /-- A start tag; `hasContent` says whether its element stays open. -/
  | opening (span : TagSpan) (hasContent : Bool)
  /-- An end tag. -/
  | closing (name : String) (extent : Extent)
  deriving DecidableEq, Repr

/-- Whether a text starts with the end tag of an element, in any case of the letters of its name. -/
def startsWithEndTag (name : List Char) (text : List Char) : Bool :=
  ('<' :: '/' :: name).isPrefixOf (lower (text.take (name.length + 2)))

/-- Moves over the text of an element, if its content is text. -/
def skipRawText (name : String) (cursor : Cursor) : Cursor :=
  if isRawText name then cursor.skipTo (startsWithEndTag name.toList) else cursor

/-- Whether the start tag between two ends of the text is closed by a slash. -/
def isSelfClosing (text after : List Char) : Bool :=
  ['/', '>'].isSuffixOf (text.take (text.length - after.length))

theorem length_skipRawText_le (name : String) (cursor : Cursor) :
    (skipRawText name cursor).rest.length ≤ cursor.rest.length := by
  unfold skipRawText
  split
  · exact Cursor.length_skipTo_le _ _
  · exact Nat.le_refl _

namespace Mark

/-- The start tag whose `<` is at `start` and followed by `text`, and the place where the scan goes
on. -/
def ofStartTag (start : Nat) (text : List Char) : Mark × Cursor :=
  let (span, after) := TagSpan.ofStartTag start text
  let hasContent := !isVoid span.name && !isSelfClosing text after.rest
  (.opening span hasContent, if hasContent then skipRawText span.name after else after)

/-- The end tag whose `<` is at `start` and whose slash is followed by `text`, if it has a name, and
the place where the scan goes on. -/
def ofEndTag (start : Nat) (text : List Char) : Option Mark × Cursor :=
  let name := text.takeWhile inTagName
  let after := ((Cursor.mk (start + 2) text).drop name.length).skipPast ['>']
  (if name.isEmpty then none
    else some (.closing (String.ofList (lower name)) ⟨start, after.offset⟩), after)

theorem length_ofStartTag_le (start : Nat) (text : List Char) :
    (ofStartTag start text).2.rest.length ≤ text.length := by
  have h := TagSpan.length_ofStartTag_le start text
  unfold ofStartTag
  dsimp only
  split
  · exact Nat.le_trans (length_skipRawText_le _ _) h
  · exact h

theorem length_ofEndTag_le (start : Nat) (text : List Char) :
    (ofEndTag start text).2.rest.length ≤ text.length := by
  unfold ofEndTag
  exact Nat.le_trans (Cursor.length_skipPast_le _ _) (Cursor.length_drop_le _ _)

/-- The tag at a place of a text, if there is one, and the place where the scan goes on. -/
def next (cursor : Cursor) : Option Mark × Cursor :=
  match cursor.rest with
  | [] => (none, cursor)
  | '<' :: '!' :: '-' :: '-' :: rest =>
    (none, (Cursor.mk (cursor.offset + 4) rest).skipPast ['-', '-', '>'])
  | '<' :: '!' :: rest => (none, (Cursor.mk (cursor.offset + 2) rest).skipPast ['>'])
  | '<' :: '?' :: rest => (none, (Cursor.mk (cursor.offset + 2) rest).skipPast ['>'])
  | '<' :: '/' :: rest => ofEndTag cursor.offset rest
  | '<' :: c :: rest =>
    if c.isAlpha then
      let found := ofStartTag cursor.offset (c :: rest)
      (some found.1, found.2)
    else (none, ⟨cursor.offset + 1, c :: rest⟩)
  | c :: rest => (none, ⟨cursor.offset + c.utf8Size, rest⟩)

theorem length_next_lt (cursor : Cursor) (h : cursor.rest ≠ []) :
    (next cursor).2.rest.length < cursor.rest.length := by
  unfold next
  split
  · contradiction
  · next hrest =>
    refine Nat.lt_of_le_of_lt (Cursor.length_skipPast_le _ _) ?_
    simp only [hrest, List.length_cons]
    omega
  · next hrest =>
    refine Nat.lt_of_le_of_lt (Cursor.length_skipPast_le _ _) ?_
    simp only [hrest, List.length_cons]
    omega
  · next hrest =>
    refine Nat.lt_of_le_of_lt (Cursor.length_skipPast_le _ _) ?_
    simp only [hrest, List.length_cons]
    omega
  · next hrest =>
    refine Nat.lt_of_le_of_lt (length_ofEndTag_le _ _) ?_
    simp only [hrest, List.length_cons]
    omega
  · next hrest =>
    split
    · refine Nat.lt_of_le_of_lt (length_ofStartTag_le _ _) ?_
      simp only [hrest, List.length_cons]
      omega
    · simp only [hrest, List.length_cons]
      omega
  · next hrest =>
    simp only [hrest, List.length_cons]
    omega

/-- The tags of a text from a place on. -/
def scan (cursor : Cursor) : List Mark :=
  if _h : cursor.rest = [] then []
  else
    let found := next cursor
    found.1.toList ++ scan found.2
termination_by cursor.rest.length
decreasing_by exact length_next_lt cursor _h

end Mark

end ElementLint.Span
