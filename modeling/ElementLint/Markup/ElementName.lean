/-!
# Names of elements

An element has a tag name in one of three vocabularies: HTML, SVG and MathML. This module defines
the classes of elements that the construction of a tree tells apart. All classes hold elements of
HTML only, except the integration points, which are the SVG and MathML elements with HTML content,
and the barriers of a scope, which the integration points belong to.
-/

namespace ElementLint.Markup

/-- The vocabulary that a tag name belongs to. -/
inductive Vocabulary where
  | html
  | svg
  | mathMl
  deriving DecidableEq, Repr, Inhabited

/-- The name of an element. -/
structure ElementName where
  vocabulary : Vocabulary
  tag : String
  deriving DecidableEq, Repr, Inhabited

namespace ElementName

/-- Whether this is the HTML element of the given tag name. -/
def isHtml (name : ElementName) (tag : String) : Bool :=
  name.vocabulary == .html && name.tag == tag

/-- Whether this is an HTML element with one of the given tag names. -/
def isHtmlIn (name : ElementName) (tags : List String) : Bool :=
  name.vocabulary == .html && tags.contains name.tag

/-- The MathML elements whose content is text of HTML. -/
def isMathTextPoint (name : ElementName) : Bool :=
  name.vocabulary == .mathMl && ["mi", "mo", "mn", "ms", "mtext"].contains name.tag

/-- The SVG elements whose content is HTML. -/
def isSvgHtmlPoint (name : ElementName) : Bool :=
  name.vocabulary == .svg && ["foreignObject", "desc", "title"].contains name.tag

/-- The elements out of which no search for an open element looks. -/
def endsScope (name : ElementName) : Bool :=
  name.isHtmlIn ["applet", "caption", "html", "table", "td", "th", "marquee", "object", "template"]
    || name.isMathTextPoint || name.isSvgHtmlPoint

/-- The elements out of which the search for an open list item does not look. -/
def endsListScope (name : ElementName) : Bool :=
  name.endsScope || name.isHtmlIn ["ol", "ul"]

/-- The elements out of which the search for an open paragraph does not look. -/
def endsButtonScope (name : ElementName) : Bool :=
  name.endsScope || name.isHtml "button"

/-- The elements out of which the search for an open part of a table does not look. -/
def endsTableScope (name : ElementName) : Bool :=
  name.isHtmlIn ["html", "table", "template"]

/-- The elements out of which the search for an open selection does not look. -/
def endsSelectScope (name : ElementName) : Bool :=
  !name.isHtmlIn ["optgroup", "option"]

/-- The elements that may hold groups of rows. -/
def isRowGroupContext (name : ElementName) : Bool :=
  name.isHtmlIn ["tbody", "tfoot", "thead", "template", "html"]

/-- The elements that may hold cells. -/
def isRowContext (name : ElementName) : Bool :=
  name.isHtmlIn ["tr", "template", "html"]

/-- The parts of a table whose text belongs elsewhere. -/
def isTablePart (name : ElementName) : Bool :=
  name.isHtmlIn ["table", "tbody", "tfoot", "thead", "tr"]

/-- The elements whose end tag may be left out anywhere. -/
def endsByItself (name : ElementName) : Bool :=
  name.isHtmlIn ["dd", "dt", "li", "option", "optgroup", "p", "rb", "rp", "rt", "rtc"]

/-- The elements that the end of a template ends. -/
def endsWithTemplate (name : ElementName) : Bool :=
  name.endsByItself ||
    name.isHtmlIn ["caption", "colgroup", "tbody", "td", "tfoot", "th", "thead", "tr"]

/-- The headings. -/
def isHeading (name : ElementName) : Bool :=
  name.isHtmlIn ["h1", "h2", "h3", "h4", "h5", "h6"]

/-- The elements that no end tag of another element closes and that stop the search for one. -/
def isSpecial (name : ElementName) : Bool :=
  name.isHtmlIn
    ["address", "applet", "area", "article", "aside", "base", "basefont", "bgsound", "blockquote",
      "body", "br", "button", "caption", "center", "col", "colgroup", "dd", "details", "dir", "div",
      "dl", "dt", "embed", "fieldset", "figcaption", "figure", "footer", "form", "frame",
      "frameset", "h1", "h2", "h3", "h4", "h5", "h6", "head", "header", "hgroup", "hr", "html",
      "iframe", "img", "input", "isindex", "li", "link", "listing", "main", "marquee", "menu",
      "meta", "nav", "noembed", "noframes", "noscript", "object", "ol", "p", "param", "plaintext",
      "pre", "script", "section", "select", "source", "style", "summary", "table", "tbody", "td",
      "template", "textarea", "tfoot", "th", "thead", "title", "tr", "track", "ul", "wbr", "xmp"]

end ElementName

end ElementLint.Markup
