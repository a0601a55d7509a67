import ElementLint.Markup.Builder.Select
import ElementLint.Markup.Builder.Table

/-!
# SVG and MathML

The rules inside SVG and MathML, and the choice of the rules for a token (`step`). An element of SVG
or MathML keeps to its vocabulary until its end tag, except at its integration points, or where a
tag follows that only HTML knows.
-/

namespace ElementLint.Markup.Builder

/-- The rules of the present mode. -/
def stepMode (token : Token) (b : Builder) : Step :=
  match b.mode with
  | .initial => stepInitial token b
  | .beforeHtml => stepBeforeHtml token b
  | .beforeHead => stepBeforeHead token b
  | .inHead => stepHead token b
  | .afterHead => stepAfterHead token b
  | .inBody => stepBody token b
  | .inText => stepText token b
  | .inTable => stepTable token b
  | .inTableText => stepWaitingText token b
  | .inCaption => stepCaption token b
  | .inColumnGroup => stepColumnGroup token b
  | .inTableBody => stepTableBody token b
  | .inRow => stepRow token b
  | .inCell => stepCell token b
  | .inSelect => stepSelect token b
  | .inSelectInTable => stepSelectInTable token b
  | .inTemplate => stepTemplate token b
  | .afterBody => stepAfterBody token b
  | .inFrameset => stepFrameset token b
  | .afterFrameset => stepAfterFrameset token b
  | .afterAfterBody => stepAfterAfterBody token b
  | .afterAfterFrameset => stepAfterAfterFrameset token b

/-- Whether an annotation of MathML holds HTML. -/
def annotationHoldsHtml (b : Builder) (e : OpenElement) : Bool :=
  match b.draft.attribute? e.id "encoding" with
  | some encoding =>
    ["text/html", "application/xhtml+xml"].contains
      (String.ofList (encoding.toList.map Char.toLower))
  | none => false

/-- Whether a token is text or a start tag of a name that a predicate accepts. -/
def isTextOrStart (accepts : String → Bool) : Token → Bool
  | .blank _ | .text _ | .null => true
  | .startTag tag => accepts tag.name
  | _ => false

/-- Whether a token falls under the rules of SVG and MathML. -/
def isForeign (b : Builder) (token : Token) : Bool :=
  match b.opened with
  | [] => false
  | e :: _ =>
    if token == .endOfText || e.name.vocabulary == .html then false
    -- at an integration point text and most start tags are HTML
    else if e.name.isMathTextPoint &&
      isTextOrStart (fun name => name != "mglyph" && name != "malignmark") token then false
    else if e.name.isSvgHtmlPoint && isTextOrStart (fun _ => true) token then false
    else if e.name == ⟨.mathMl, "annotation-xml"⟩ then
      match token with
      | .startTag tag => tag.name != "svg" && !b.annotationHoldsHtml e
      | .blank _ | .text _ | .null => !b.annotationHoldsHtml e
      | _ => true
    else true

/-- Whether the innermost open element is not of HTML. -/
def inForeign (b : Builder) : Bool :=
  b.currentIn (·.vocabulary != .html)

/-- Whether a start tag belongs to HTML wherever it stands. -/
def breaksOut (tag : Tag) : Bool :=
  ["b", "big", "blockquote", "body", "br", "center", "code", "dd", "div", "dl", "dt", "em", "embed",
    "h1", "h2", "h3", "h4", "h5", "h6", "head", "hr", "i", "img", "li", "listing", "menu", "meta",
    "nobr", "ol", "p", "pre", "ruby", "s", "small", "span", "strong", "strike", "sub", "sup",
    "table", "tt", "u", "ul", "var"].contains tag.name ||
    (tag.name == "font" &&
      tag.attributes.any (fun a => ["color", "face", "size"].contains a.name))

/-- Leaves SVG and MathML and looks at the token again. -/
def breakOut (b : Builder) : Step :=
  (b.pop.popWhile (fun name =>
    name.vocabulary != .html && !name.isMathTextPoint && !name.isSvgHtmlPoint)).repeated

/-- Opens an element of the vocabulary of the innermost open element. -/
def openForeignChild (b : Builder) (tag : Tag) : Builder :=
  match b.opened with
  | [] => b
  | current :: _ =>
    match current.name.vocabulary with
    | .html => b.openForeign .html { tag with attributes := foreignAttributes [] tag.attributes }
    | .mathMl =>
      b.openForeign .mathMl
        { tag with attributes := foreignAttributes mathAttributeNames tag.attributes }
    | .svg =>
      b.openForeign .svg
        { tag with
          name := respell svgTagNames tag.name
          attributes := foreignAttributes svgAttributeNames tag.attributes }

/-- Handles an end tag inside SVG or MathML: it closes the innermost element of that name, in any
case of the letters, that no HTML element is open inside of; at an HTML element the rules of the
present mode take over. The innermost element is never such an HTML element. The list holds the
elements that are still to be looked at. -/
def closeForeign (b : Builder) (name : String) (innermost : Bool) : List OpenElement → Step
  | [] => b.done
  | [_] => b.done
  | e :: below =>
    if !innermost && e.name.vocabulary == .html then stepMode (.endTag name) b
    else if e.name.tag.toList.map Char.toLower == name.toList.map Char.toLower then
      { b with opened := below }.done
    else closeForeign b name false below

/-- The rules inside SVG and MathML. -/
def stepForeign (token : Token) (b : Builder) : Step :=
  match token with
  | .null => (b.addText (String.singleton replacement)).done
  | .blank run => (b.addText run).done
  | .text run => (b.fixBody.addText run).done
  | .comment text => (b.addComment text).done
  | .startTag tag => if breaksOut tag then b.breakOut else (b.openForeignChild tag).done
  | .endTag name => closeForeign b name true b.opened
  | _ => b.done

/-- The rules for a token. -/
def step (token : Token) (b : Builder) : Step :=
  if b.isForeign token then stepForeign token b else stepMode token b

end ElementLint.Markup.Builder
