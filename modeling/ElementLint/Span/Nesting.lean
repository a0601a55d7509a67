import ElementLint.Span.Mark

/-!
# The extents of elements

`TagSpan.scan` finds the elements of a text with their extents. It goes through the tags of the text
and keeps a stack of the elements that are open. An end tag ends the innermost open element of its
name and all elements inside it; a start tag may end elements whose end tags are left out; what is
open at the end of the text ends there.
-/

namespace ElementLint.Span

open Text

/-- An element that is open: its place in the list of spans, and its name. -/
structure OpenTag where
  index : Nat
  name : String
  deriving DecidableEq, Repr, Inhabited

/-- The elements found so far. -/
structure Nesting where
  spans : Array TagSpan
  /-- The open elements, innermost first. -/
  opened : List OpenTag
  deriving Repr, Inhabited

namespace Nesting

/-- No elements. -/
def empty : Nesting := ⟨#[], []⟩

/-- Lets some elements end at the same place. -/
def endAt (spans : Array TagSpan) (tags : List OpenTag) (stop : Nat) : Array TagSpan :=
  tags.foldl (fun spans tag => spans.modify tag.index ({ · with stop })) spans

/-- The innermost open element that a start tag ends, split off from what is open inside and outside
of it. -/
def splitImplied (closes bounds : List String) (opened : List OpenTag) :
    Option (List OpenTag × OpenTag × List OpenTag) :=
  let inner :=
    -- without bounds only the innermost element is looked at
    if bounds.isEmpty then []
    else opened.takeWhile (fun tag => !bounds.contains tag.name && !closes.contains tag.name)
  match opened.drop inner.length with
  | tag :: outer => if closes.contains tag.name then some (inner, tag, outer) else none
  | [] => none

/-- Ends what the start tag of an element at `place` ends. -/
def closeImplied (nesting : Nesting) (name : String) (place : Nat) : Nesting :=
  match impliedEnd name with
  | none => nesting
  | some (closes, bounds) =>
    match splitImplied closes bounds nesting.opened with
    | none => nesting
    | some (inner, tag, outer) => ⟨endAt nesting.spans (inner ++ [tag]) place, outer⟩

/-- Adds the element of a start tag. -/
def enter (nesting : Nesting) (span : TagSpan) (hasContent : Bool) : Nesting :=
  let nesting := nesting.closeImplied span.name span.start
  { spans := nesting.spans.push span
    opened := if hasContent then ⟨nesting.spans.size, span.name⟩ :: nesting.opened
      else nesting.opened }

/-- Ends the innermost open element of a name at the end of its end tag, and all elements inside it
at the start of the end tag. -/
def close (nesting : Nesting) (name : String) (extent : Extent) : Nesting :=
  let inner := nesting.opened.takeWhile (·.name != name)
  match nesting.opened.drop inner.length with
  | [] => nesting
  | tag :: outer =>
    ⟨endAt (endAt nesting.spans inner extent.start) [tag] extent.stop, outer⟩

/-- Adds a tag. -/
def add (nesting : Nesting) : Mark → Nesting
  | .opening span hasContent => nesting.enter span hasContent
  | .closing name extent => nesting.close name extent

/-- Ends what is still open at the end of the text. -/
def finish (nesting : Nesting) (size : Nat) : Array TagSpan :=
  endAt nesting.spans nesting.opened size

end Nesting

/-- The elements of a text in the order of their start tags. -/
def TagSpan.scan (text : List Char) : Array TagSpan :=
  ((Mark.scan ⟨0, text⟩).foldl Nesting.add .empty).finish (byteSize text)

end ElementLint.Span
