import ElementLint.Text.Extent

/-!
# Spans of tags

A `TagSpan` tells where a start tag and its element stand in a text. All places are byte offsets.
This module also lists the elements that have no content, those whose content is text, and the
start tags that end an element which is still open.
-/

namespace ElementLint

namespace Span

/-- Where an attribute stands in a start tag. -/
structure AttributeSpan where
  name : String
  /-- The value with its quotes, if there is a value. -/
  value : Option Extent
  deriving DecidableEq, Repr, Inhabited

/-- Where a start tag and its element stand. -/
structure TagSpan where
  /-- The tag name in small letters. -/
  name : String
  /-- The place of the `<`. -/
  start : Nat
  /-- The end of the tag name. -/
  nameEnd : Nat
  /-- The end of the start tag. -/
  startTagEnd : Nat
  /-- The end of the element. -/
  stop : Nat
  attributes : List AttributeSpan
  deriving DecidableEq, Repr, Inhabited

/-- The elements without content. -/
def isVoid (name : String) : Bool :=
  ["area", "base", "br", "col", "embed", "hr", "img", "input", "link", "meta", "param", "source",
    "track", "wbr"].contains name

/-- The elements whose content is text. -/
def isRawText (name : String) : Bool :=
  ["script", "style", "textarea", "title", "xmp", "iframe", "noembed", "noframes", "noscript",
    "plaintext"].contains name

/-- The elements that a start tag ends without their end tags, and the elements out of which the
search for them does not look. Without such bounds only the innermost open element is ended. -/
def impliedEnd (name : String) : Option (List String × List String) :=
  match name with
  | "li" => some (["li"], ["ul", "ol", "menu"])
  | "dt" | "dd" => some (["dt", "dd"], ["dl"])
  | "option" => some (["option"], ["select", "datalist", "optgroup"])
  | "optgroup" => some (["option", "optgroup"], ["select"])
  | "tr" => some (["tr", "td", "th"], ["table", "tbody", "thead", "tfoot"])
  | "td" | "th" => some (["td", "th"], ["tr", "table"])
  | "p" | "div" | "ul" | "ol" | "dl" | "table" | "pre" | "section" | "article" | "aside"
  | "header" | "footer" | "nav" | "main" | "form" | "blockquote" | "hr" | "h1" | "h2" | "h3"
  | "h4" | "h5" | "h6" => some (["p"], [])
  | _ => none

end Span

end ElementLint
