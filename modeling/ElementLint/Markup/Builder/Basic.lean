import ElementLint.Markup.Draft
import ElementLint.Markup.Token.Basic

/-!
# The state of a tree construction

A `Builder` holds the draft of the tree, the elements that are open, and what else decides where the
next token goes. The stack of open elements is a list that starts with the innermost one; the list
of formatting elements starts with the latest.

This module defines the operations on the open elements, the insertion of nodes, and the choice of
the place for a node, which for text and elements out of place in a table is before the table.
-/

namespace ElementLint.Markup

/-- The part of a document that the next token is expected to belong to. -/
inductive Mode where
  | initial
  | beforeHtml
  | beforeHead
  | inHead
  | afterHead
  | inBody
  | inText
  | inTable
  | inTableText
  | inCaption
  | inColumnGroup
  | inTableBody
  | inRow
  | inCell
  | inSelect
  | inSelectInTable
  | inTemplate
  | afterBody
  | inFrameset
  | afterFrameset
  | afterAfterBody
  | afterAfterFrameset
  deriving DecidableEq, Repr, Inhabited

/-- An element that is open. -/
structure OpenElement where
  id : DraftId
  name : ElementName
  deriving DecidableEq, Repr, Inhabited

/-- An entry of the list of formatting elements. -/
inductive FormattingEntry where
  /-- The start of a part of the document on which earlier formatting has no effect. -/
  | marker
  | element (id : DraftId) (tag : Tag)
  deriving DecidableEq, Repr

/-- The state of a tree construction. -/
structure Builder where
  draft : Draft
  mode : Mode
  /-- The mode that follows text of an element or of a table. -/
  returnMode : Mode
  /-- The open elements, innermost first. -/
  opened : List OpenElement
  /-- The formatting elements, latest first. -/
  formatting : List FormattingEntry
  /-- The modes of the contents of the open templates, innermost first. -/
  templateModes : List Mode
  /-- The text of a table that waits for a place, latest first. -/
  tableText : List Token
  head : Option DraftId
  form : Option DraftId
  framesetAllowed : Bool
  /-- Whether nodes out of place in a table go before it. -/
  fostering : Bool
  /-- Whether a line feed at the start of the next token is dropped. -/
  skipNewline : Bool
  /-- Whether the rules of old documents apply. -/
  oldDocument : Bool
  /-- How the text after the token is read. -/
  content : ContentMode

/-- The result of a rule: the new state, and whether the same token is looked at again in it. -/
structure Step where
  builder : Builder
  again : Bool

namespace Builder

/-- The state before the first token. -/
def start : Builder where
  draft := .empty
  mode := .initial
  returnMode := .initial
  opened := []
  formatting := []
  templateModes := []
  tableText := []
  head := none
  form := none
  framesetAllowed := true
  fostering := false
  skipNewline := false
  oldDocument := false
  content := .markup

/-- The token is used up. -/
def done (b : Builder) : Step := ⟨b, false⟩

/-- The token is looked at again in another mode. -/
def again (b : Builder) (mode : Mode) : Step := ⟨{ b with mode }, true⟩

/-- The token is looked at again in the present mode. -/
def repeated (b : Builder) : Step := ⟨b, true⟩

/-! ### The open elements -/

/-- Whether a predicate holds of the innermost open element. -/
def currentIn (b : Builder) (p : ElementName → Bool) : Bool :=
  b.opened.head?.any (fun e => p e.name)

/-- Whether the innermost open element is an HTML element of the given name. -/
def currentIs (b : Builder) (tag : String) : Bool :=
  b.currentIn (·.isHtml tag)

/-- Whether an HTML element of the given name is open. -/
def hasOpen (b : Builder) (tag : String) : Bool :=
  b.opened.any (fun e => e.name.isHtml tag)

/-- Whether an element is open. -/
def isOpen (b : Builder) (id : DraftId) : Bool :=
  b.opened.any (·.id == id)

/-- Whether some open elements, innermost first, hold a wanted one that is not outside a barrier. -/
def findInScope (barrier : ElementName → Bool) (wanted : OpenElement → Bool) :
    List OpenElement → Bool
  | [] => false
  | e :: rest => wanted e || (!barrier e.name && findInScope barrier wanted rest)

/-- Whether an HTML element of the given name is open inside the innermost barrier. -/
def hasInScope (b : Builder) (barrier : ElementName → Bool) (tag : String) : Bool :=
  findInScope barrier (fun e => e.name.isHtml tag) b.opened

/-- Closes the innermost open element. -/
def pop (b : Builder) : Builder :=
  { b with opened := b.opened.tail }

/-- Closes the innermost open elements as long as a predicate holds of them. -/
def popWhile (b : Builder) (p : ElementName → Bool) : Builder :=
  { b with opened := b.opened.dropWhile (fun e => p e.name) }

/-- Closes the innermost open elements up to and with the first of which a predicate holds. -/
def popThrough (b : Builder) (p : ElementName → Bool) : Builder :=
  (b.popWhile (fun name => !p name)).pop

/-- Closes the innermost open elements up to and with the first of the given name. -/
def popThroughTag (b : Builder) (tag : String) : Builder :=
  b.popThrough (·.isHtml tag)

/-- Closes the innermost open elements whose end tags may be left out. -/
def closeImplied (b : Builder) : Builder :=
  b.popWhile (·.endsByItself)

/-- Closes the innermost open elements whose end tags may be left out, up to one of the given
name. -/
def closeImpliedExcept (b : Builder) (tag : String) : Builder :=
  b.popWhile (fun name => name.endsByItself && !name.isHtml tag)

/-- Closes an open paragraph and what is in it. -/
def closeParagraph (b : Builder) : Builder :=
  (b.closeImpliedExcept "p").popThroughTag "p"

/-- Closes the paragraph that the next element would stand in, if there is one. -/
def closeParagraphInScope (b : Builder) : Builder :=
  if b.hasInScope (·.endsButtonScope) "p" then b.closeParagraph else b

/-- Takes an element out of the stack of open elements. -/
def unopen (b : Builder) (id : DraftId) : Builder :=
  { b with opened := b.opened.filter (·.id != id) }

/-! ### The place for a node -/

/-- The place for a node that may not stand in a table: the content of the innermost open template,
or else before the innermost open table. -/
def fosterPlace (draft : Draft) : List OpenElement → Place
  | [] => .inside Draft.document
  | [root] => .inside (draft.contentOf root.id)
  | e :: below :: rest =>
    if e.name.isHtml "template" then .inside (draft.contentOf e.id)
    else if e.name.isHtml "table" then
      -- a table without a parent has no place before it
      if (draft.parent? e.id).isSome then .before e.id else .inside below.id
    else fosterPlace draft (below :: rest)

/-- The place for a child of an element. -/
def placeIn (b : Builder) (target : OpenElement) : Place :=
  if b.fostering && target.name.isTablePart then fosterPlace b.draft b.opened
  else .inside (b.draft.contentOf target.id)

/-- The place for the next node. -/
def place (b : Builder) : Place :=
  match b.opened with
  | [] => .inside Draft.document
  | current :: _ => b.placeIn current

/-! ### Nodes -/

/-- Adds text. -/
def addText (b : Builder) (run : String) : Builder :=
  { b with draft := b.draft.insertText b.place run }

/-- Adds a comment in a place. -/
def addCommentAt (b : Builder) (place : Place) (text : String) : Builder :=
  let (draft, id) := b.draft.create (.leaf (.comment text))
  { b with draft := draft.insert place id }

/-- Adds a comment. -/
def addComment (b : Builder) (text : String) : Builder :=
  b.addCommentAt b.place text

/-- Adds an element, which is not opened. -/
def addElement (b : Builder) (name : ElementName) (attributes : List Attribute) :
    Builder × DraftId :=
  let place := b.place
  let (draft, id) := b.draft.createElement name attributes
  ({ b with draft := draft.insert place id }, id)

/-- Adds an element and opens it. -/
def openElement (b : Builder) (name : ElementName) (attributes : List Attribute) :
    Builder × DraftId :=
  let (b, id) := b.addElement name attributes
  ({ b with opened := ⟨id, name⟩ :: b.opened }, id)

/-- Adds the HTML element of a tag and opens it. -/
def openTag (b : Builder) (tag : Tag) : Builder :=
  (b.openElement ⟨.html, tag.name⟩ tag.attributes).1

/-- Adds the HTML element of a tag, which has no content. -/
def addTag (b : Builder) (tag : Tag) : Builder :=
  (b.addElement ⟨.html, tag.name⟩ tag.attributes).1

/-- Adds and opens an HTML element that the text leaves out. -/
def openImplied (b : Builder) (tag : String) : Builder :=
  (b.openElement ⟨.html, tag⟩ []).1

/-- Adds and opens the root element. -/
def openRoot (b : Builder) (attributes : List Attribute) : Builder :=
  let name := ⟨.html, "html"⟩
  let (draft, id) := b.draft.createElement name attributes
  { b with
    draft := draft.insert (.inside Draft.document) id
    opened := ⟨id, name⟩ :: b.opened }

/-- Adds the element of a tag whose content is read in another way. -/
def openWithText (b : Builder) (tag : Tag) (content : ContentMode) : Builder :=
  let b := b.openTag tag
  { b with returnMode := b.mode, mode := .inText, content }

/-! ### Modes -/

/-- The mode that belongs to some open elements, innermost first. -/
def modeOf (b : Builder) : List OpenElement → Mode
  | [] => .inBody
  | e :: below =>
    if e.name.vocabulary != .html then modeOf b below
    else
      match e.name.tag with
      | "select" =>
        -- the nearest template or table around the selection decides
        match below.find? (fun e => e.name.isHtml "template" || e.name.isHtml "table") with
        | some holder => if holder.name.isHtml "table" then .inSelectInTable else .inSelect
        | none => .inSelect
      | "td" | "th" => if below.isEmpty then modeOf b below else .inCell
      | "tr" => .inRow
      | "tbody" | "thead" | "tfoot" => .inTableBody
      | "caption" => .inCaption
      | "colgroup" => .inColumnGroup
      | "table" => .inTable
      | "template" => b.templateModes.headD .inBody
      | "head" => if below.isEmpty then modeOf b below else .inHead
      | "body" => .inBody
      | "frameset" => .inFrameset
      | "html" => if b.head.isNone then .beforeHead else .afterHead
      | _ => modeOf b below

/-- The mode that belongs to the open elements. -/
def properMode (b : Builder) : Mode :=
  b.modeOf b.opened

/-- Continues in the mode that belongs to the open elements. -/
def resetMode (b : Builder) : Builder :=
  { b with mode := b.properMode }

end Builder

end ElementLint.Markup
