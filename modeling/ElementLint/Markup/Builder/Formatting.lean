import ElementLint.Markup.Builder.Basic

/-!
# Formatting elements

Formatting such as `<b>` lasts across the ends of other elements. `reopenFormatting` opens the
formatting elements again that an end tag has closed by the way, and `closeFormatting` handles an
end tag of one: where other elements are open inside it, their content is split between copies of
the formatting element.
-/

namespace ElementLint.Markup

/-- Whether an entry is an element. -/
def FormattingEntry.isElement : FormattingEntry → Bool
  | .marker => false
  | .element _ _ => true

/-- Whether an entry is the given element. -/
def FormattingEntry.hasId (id : DraftId) : FormattingEntry → Bool
  | .marker => false
  | .element other _ => other == id

/-- Whether two tags have the same name and, in some order, the same attributes. -/
def Tag.alike (a b : Tag) : Bool :=
  a.name == b.name && a.attributes.length == b.attributes.length &&
    a.attributes.all b.attributes.contains

namespace Builder

/-- The formatting elements after the latest marker. -/
def recentFormatting (b : Builder) : List FormattingEntry :=
  b.formatting.takeWhile (·.isElement)

/-- Removes an element from the formatting elements. -/
def unformat (b : Builder) (id : DraftId) : Builder :=
  { b with formatting := b.formatting.filter (fun entry => !entry.hasId id) }

/-- Adds a marker to the formatting elements. -/
def addMarker (b : Builder) : Builder :=
  { b with formatting := .marker :: b.formatting }

/-- Removes the formatting elements up to and with the latest marker. -/
def clearToMarker (b : Builder) : Builder :=
  { b with formatting := (b.formatting.dropWhile (·.isElement)).drop 1 }

/-- Opens the latest formatting elements that are no longer open again. -/
def reopenFormatting (b : Builder) : Builder :=
  let isClosed : FormattingEntry → Bool
    | .marker => false
    | .element id _ => !b.isOpen id
  let closed := b.formatting.takeWhile isClosed
  -- the list starts with the latest entry, and the earliest one is opened first
  closed.reverse.foldl (fun b entry =>
    match entry with
    | .marker => b
    | .element _ tag =>
      let (b, id) := b.openElement ⟨.html, tag.name⟩ tag.attributes
      { b with formatting := .element id tag :: b.formatting })
    { b with formatting := b.formatting.drop closed.length }

/-- Adds and opens a formatting element. Of more than three alike ones the earliest is forgotten. -/
def openFormatting (b : Builder) (tag : Tag) : Builder :=
  let alike := b.recentFormatting.filterMap fun
    | .marker => none
    | .element id other => if tag.alike other then some id else none
  let b := if 3 ≤ alike.length then alike.getLast?.elim b b.unformat else b
  let (b, id) := b.openElement ⟨.html, tag.name⟩ tag.attributes
  { b with formatting := .element id tag :: b.formatting }

/-- Handles the end tag of an element without rules of its own: closes the innermost open element of
that name, unless a special element is open inside it. -/
def closeOther (b : Builder) (tag : String) : Builder :=
  match b.opened.dropWhile (fun e => !e.name.isHtml tag && !e.name.isSpecial) with
  | e :: below => if e.name.isHtml tag then { b with opened := below } else b
  | [] => b

/-- The state while the elements between a formatting element and a block in it are copied. -/
structure Copying where
  builder : Builder
  /-- How many elements have been looked at. -/
  count : Nat
  /-- The outermost node that is taken along. -/
  last : DraftId
  /-- The entry right after which the copy of the formatting element belongs. -/
  bookmark : Option DraftId

/-- Copies the elements between a block and the formatting element around it, from the inside out,
and hangs what is taken along into the copies. Gives the copies that stay open. Elements after the
third, and elements that are not formatting elements, are closed instead. -/
def copyBetween (state : Copying) : List OpenElement → Copying × List OpenElement
  | [] => (state, [])
  | e :: rest =>
    let b := state.builder
    let count := state.count + 1
    -- too far from the block: the element is closed and forgotten
    if 3 < count then copyBetween { state with builder := b.unformat e.id, count } rest
    else
      match b.formatting.find? (·.hasId e.id) with
      | some (.element _ tag) =>
        -- the copy takes the place of the element and holds what is taken along
        let name : ElementName := ⟨.html, tag.name⟩
        let (draft, copy) := b.draft.createElement name tag.attributes
        let formatting := b.formatting.map fun entry =>
          if entry.hasId e.id then .element copy tag else entry
        let draft := (draft.detach state.last).insert (.inside copy) state.last
        let (state, copies) := copyBetween
          { builder := { b with draft, formatting }, count, last := copy,
            bookmark := state.bookmark.or (some copy) } rest
        (state, ⟨copy, name⟩ :: copies)
      -- an element that is no formatting is closed
      | _ => copyBetween { state with count } rest

/-- Moves a block out of a formatting element: `inner` are the open elements inside the block,
`between` those between it and the formatting element, and `outer` those around that; all are
innermost first. -/
def splitFormatting (b : Builder) (id : DraftId) (tag : Tag) (inner : List OpenElement)
    (block : OpenElement) (between outer : List OpenElement) : Builder :=
  let (state, copies) := copyBetween ⟨b, 0, block.id, none⟩ between
  let b := state.builder
  let target := match outer with
    | [] => .inside Draft.document
    | ancestor :: _ => b.placeIn ancestor
  -- what is taken along leaves the formatting element
  let draft := (b.draft.detach state.last).insert target state.last
  let name : ElementName := ⟨.html, tag.name⟩
  -- the content of the block goes into a copy inside it
  let (draft, copy) := draft.createElement name tag.attributes
  let draft := (draft.moveChildren block.id copy).insert (.inside block.id) copy
  let entry := FormattingEntry.element copy tag
  let formatting := match state.bookmark with
    | none => b.formatting.map (fun old => if old.hasId id then entry else old)
    | some bookmark =>
      (b.formatting.flatMap (fun old => if old.hasId bookmark then [entry, old] else [old])).filter
        (fun old => !old.hasId id)
  { b with draft, formatting, opened := inner ++ ⟨copy, name⟩ :: block :: copies ++ outer }

/-- Handles an end tag of a formatting element once. The second component says whether there may be
more to do. -/
def closeFormattingOnce (b : Builder) (subject : String) : Builder × Bool :=
  let isSubject : FormattingEntry → Bool
    | .marker => false
    | .element _ tag => tag.name == subject
  match b.recentFormatting.find? isSubject with
  | some (.element id tag) =>
    match b.opened.dropWhile (·.id != id) with
    -- it has been closed by the way
    | [] => (b.unformat id, false)
    | _ :: outer =>
      if !findInScope (·.endsScope) (·.id == id) b.opened then (b, false)
      else
        -- the elements inside it, outermost first, up to the first special one
        let inside := (b.opened.takeWhile (·.id != id)).reverse
        let between := inside.takeWhile (fun e => !e.name.isSpecial)
        match inside.drop between.length with
        | [] => ({ b.unformat id with opened := outer }, false)
        | block :: inner =>
          (b.splitFormatting id tag inner.reverse block between.reverse outer, true)
  | _ => (b.closeOther subject, false)

/-- Handles an end tag of a formatting element, in a bounded number of rounds. -/
def closeFormattingRounds (subject : String) : Nat → Builder → Builder
  | 0, b => b
  | rounds + 1, b =>
    match b.closeFormattingOnce subject with
    | (b, true) => closeFormattingRounds subject rounds b
    | (b, false) => b

/-- Handles an end tag of a formatting element. -/
def closeFormatting (b : Builder) (subject : String) : Builder :=
  match b.opened with
  | current :: below =>
    if current.name.isHtml subject && !b.formatting.any (·.hasId current.id) then
      { b with opened := below }
    else closeFormattingRounds subject 8 b
  | [] => closeFormattingRounds subject 8 b

/-- Closes a link that is still open where another one starts. -/
def closeOpenLink (b : Builder) : Builder :=
  let isLink : FormattingEntry → Bool
    | .marker => false
    | .element _ tag => tag.name == "a"
  match b.recentFormatting.find? isLink with
  | some (.element id _) => ((b.closeFormatting "a").unformat id).unopen id
  | _ => b

end Builder

end ElementLint.Markup
