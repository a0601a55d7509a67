import ElementLint.Markup.Builder.Head
import ElementLint.Markup.ForeignNames

/-!
# The body of a document

The rules in the body, which also apply to what is out of place in a table. A start tag is first
sorted by its name (`StartRule.ofName`), and so is an end tag (`EndRule.ofName`).
-/

namespace ElementLint.Markup

/-- The kinds of start tags in the body. -/
inductive StartRule where
  | root
  | headPart
  | body
  | frameset
  | block
  | heading
  | preformatted
  | form
  | listItem
  | definition
  | plainText
  | button
  | link
  | formatting
  | noBreak
  | object
  | table
  | void
  | input
  | mediaPart
  | rule
  | image
  | textArea
  | sample
  | frame
  | rawText
  | select
  | option
  | rubyBase
  | rubyText
  | math
  | svg
  | misplaced
  | other
  deriving DecidableEq, Repr

/-- The kind of a start tag. -/
def StartRule.ofName (name : String) : StartRule :=
  match name with
  | "html" => .root
  | "base" | "basefont" | "bgsound" | "link" | "meta" | "noframes" | "script" | "style"
  | "template" | "title" => .headPart
  | "body" => .body
  | "frameset" => .frameset
  | "address" | "article" | "aside" | "blockquote" | "center" | "details" | "dialog" | "dir"
  | "div" | "dl" | "fieldset" | "figcaption" | "figure" | "footer" | "header" | "hgroup" | "main"
  | "menu" | "nav" | "ol" | "p" | "section" | "summary" | "ul" => .block
  | "h1" | "h2" | "h3" | "h4" | "h5" | "h6" => .heading
  | "pre" | "listing" => .preformatted
  | "form" => .form
  | "li" => .listItem
  | "dd" | "dt" => .definition
  | "plaintext" => .plainText
  | "button" => .button
  | "a" => .link
  | "b" | "big" | "code" | "em" | "font" | "i" | "s" | "small" | "strike" | "strong" | "tt"
  | "u" => .formatting
  | "nobr" => .noBreak
  | "applet" | "marquee" | "object" => .object
  | "table" => .table
  | "area" | "br" | "embed" | "img" | "keygen" | "wbr" => .void
  | "input" => .input
  | "param" | "source" | "track" => .mediaPart
  | "hr" => .rule
  | "image" => .image
  | "textarea" => .textArea
  | "xmp" => .sample
  | "iframe" => .frame
  | "noembed" | "noscript" => .rawText
  | "select" => .select
  | "optgroup" | "option" => .option
  | "rb" | "rtc" => .rubyBase
  | "rp" | "rt" => .rubyText
  | "math" => .math
  | "svg" => .svg
  | "caption" | "col" | "colgroup" | "frame" | "head" | "tbody" | "td" | "tfoot" | "th" | "thead"
  | "tr" => .misplaced
  | _ => .other

/-- The kinds of end tags in the body. -/
inductive EndRule where
  | template
  | body
  | root
  | block
  | form
  | paragraph
  | listItem
  | definition
  | heading
  | formatting
  | object
  | lineBreak
  | other
  deriving DecidableEq, Repr

/-- The kind of an end tag. -/
def EndRule.ofName (name : String) : EndRule :=
  match name with
  | "template" => .template
  | "body" => .body
  | "html" => .root
  | "address" | "article" | "aside" | "blockquote" | "button" | "center" | "details" | "dialog"
  | "dir" | "div" | "dl" | "fieldset" | "figcaption" | "figure" | "footer" | "header" | "hgroup"
  | "listing" | "main" | "menu" | "nav" | "ol" | "pre" | "section" | "summary" | "ul" => .block
  | "form" => .form
  | "p" => .paragraph
  | "li" => .listItem
  | "dd" | "dt" => .definition
  | "h1" | "h2" | "h3" | "h4" | "h5" | "h6" => .heading
  | "a" | "b" | "big" | "code" | "em" | "font" | "i" | "nobr" | "s" | "small" | "strike"
  | "strong" | "tt" | "u" => .formatting
  | "applet" | "marquee" | "object" => .object
  | "br" => .lineBreak
  | _ => .other

/-- Whether an input field is hidden. -/
def Tag.isHidden (tag : Tag) : Bool :=
  match tag.attributes.find? (·.name == "type") with
  | some type => type.value.toList.map Char.toLower == "hidden".toList
  | none => false

namespace Builder

/-- No frameset can replace the body any more. -/
def fixBody (b : Builder) : Builder :=
  { b with framesetAllowed := false }

/-- The element of the body, if it is open in its place. -/
def bodyElement (b : Builder) : Option OpenElement :=
  match b.opened.reverse with
  | _ :: second :: _ => if second.name.isHtml "body" then some second else none
  | _ => none

/-- A second tag of the body gives it the attributes that it does not have yet. -/
def mergeBody (b : Builder) (tag : Tag) : Builder :=
  match b.bodyElement with
  | some body =>
    if b.hasOpen "template" then b
    else { b.fixBody with draft := b.draft.addMissingAttributes body.id tag.attributes }
  | none => b

/-- A frameset takes the place of a body that holds nothing yet. -/
def replaceBody (b : Builder) (tag : Tag) : Builder :=
  if !b.framesetAllowed then b
  else
    match b.bodyElement, b.opened.getLast? with
    | some body, some root =>
      -- the body leaves the tree with all that is open in it
      let b := { b with draft := b.draft.detach body.id, opened := [root] }
      { b.openTag tag with mode := .inFrameset }
    | _, _ => b

/-- The innermost open element that a list item or definition closes, if no special element is open
inside it. -/
def itemToClose (names : List String) : List OpenElement → Option String
  | [] => none
  | e :: rest =>
    if e.name.isHtmlIn names then some e.name.tag
    else if e.name.isSpecial && !e.name.isHtmlIn ["address", "div", "p"] then none
    else itemToClose names rest

/-- Opens a list item or a definition. -/
def openItem (b : Builder) (names : List String) (tag : Tag) : Builder :=
  let b := b.fixBody
  let b := match itemToClose names b.opened with
    | some name => (b.closeImpliedExcept name).popThroughTag name
    | none => b
  b.closeParagraphInScope.openTag tag

/-- Opens a form, unless another one is open. -/
def openForm (b : Builder) (tag : Tag) : Builder :=
  if b.form.isSome && !b.hasOpen "template" then b
  else
    let (b, id) := b.closeParagraphInScope.openElement ⟨.html, tag.name⟩ tag.attributes
    if b.hasOpen "template" then b else { b with form := some id }

/-- Closes the open form. What is open inside it stays open. -/
def closeForm (b : Builder) : Builder :=
  if b.hasOpen "template" then
    if b.hasInScope (·.endsScope) "form" then b.closeImplied.popThroughTag "form" else b
  else
    match b.form with
    | none => b
    | some id =>
      let b := { b with form := none }
      if findInScope (·.endsScope) (·.id == id) b.opened then b.closeImplied.unopen id else b

/-- Closes an element of the given name that is open in the present scope. -/
def closeInScope (b : Builder) (tag : String) : Builder :=
  if b.hasInScope (·.endsScope) tag then b.closeImplied.popThroughTag tag else b

/-- The mode after the start of a selection. -/
def selectMode (b : Builder) : Mode :=
  match b.mode with
  | .inTable | .inCaption | .inTableBody | .inRow | .inCell => .inSelectInTable
  | _ => .inSelect

/-- Adds an element of another vocabulary; it stays open unless its tag is closed by a slash. -/
def openForeign (b : Builder) (vocabulary : Vocabulary) (tag : Tag) : Builder :=
  if tag.selfClosing then (b.addElement ⟨vocabulary, tag.name⟩ tag.attributes).1
  else (b.openElement ⟨vocabulary, tag.name⟩ tag.attributes).1

/-- The rules for start tags in the body. -/
def stepBodyStart (tag : Tag) (b : Builder) : Step :=
  match StartRule.ofName tag.name with
  | .root => (b.mergeRoot tag).done
  | .headPart => stepHead (.startTag tag) b
  | .body => (b.mergeBody tag).done
  | .frameset => (b.replaceBody tag).done
  | .block => (b.closeParagraphInScope.openTag tag).done
  | .heading =>
    let b := b.closeParagraphInScope
    let b := if b.currentIn (·.isHeading) then b.pop else b
    (b.openTag tag).done
  | .preformatted =>
    { (b.closeParagraphInScope.openTag tag).fixBody with skipNewline := true }.done
  | .form => (b.openForm tag).done
  | .listItem => (b.openItem ["li"] tag).done
  | .definition => (b.openItem ["dd", "dt"] tag).done
  | .plainText => { b.closeParagraphInScope.openTag tag with content := .plainText }.done
  | .button =>
    ((b.closeInScope "button").reopenFormatting.openTag tag).fixBody.done
  | .link => (b.closeOpenLink.reopenFormatting.openFormatting tag).done
  | .formatting => (b.reopenFormatting.openFormatting tag).done
  | .noBreak =>
    let b := b.reopenFormatting
    let b := if b.hasInScope (·.endsScope) "nobr" then
        (b.closeFormatting "nobr").reopenFormatting
      else b
    (b.openFormatting tag).done
  | .object => (b.reopenFormatting.openTag tag).addMarker.fixBody.done
  | .table =>
    let b := if b.oldDocument then b else b.closeParagraphInScope
    { (b.openTag tag).fixBody with mode := .inTable }.done
  | .void => (b.reopenFormatting.addTag tag).fixBody.done
  | .input =>
    let b := b.reopenFormatting.addTag tag
    (if tag.isHidden then b else b.fixBody).done
  | .mediaPart => (b.addTag tag).done
  | .rule => (b.closeParagraphInScope.addTag tag).fixBody.done
  | .image => (b.reopenFormatting.addTag { tag with name := "img" }).fixBody.done
  | .textArea =>
    { (b.openWithText tag (.referenceText tag.name)).fixBody with skipNewline := true }.done
  | .sample =>
    (b.closeParagraphInScope.reopenFormatting.openWithText tag (.rawText tag.name)).fixBody.done
  | .frame => (b.openWithText tag (.rawText tag.name)).fixBody.done
  | .rawText => (b.openWithText tag (.rawText tag.name)).done
  | .select =>
    let b := (b.reopenFormatting.openTag tag).fixBody
    { b with mode := b.selectMode }.done
  | .option =>
    let b := if b.currentIs "option" then b.pop else b
    (b.reopenFormatting.openTag tag).done
  | .rubyBase =>
    let b := if b.hasInScope (·.endsScope) "ruby" then b.closeImplied else b
    (b.openTag tag).done
  | .rubyText =>
    let b := if b.hasInScope (·.endsScope) "ruby" then b.closeImpliedExcept "rtc" else b
    (b.openTag tag).done
  | .math =>
    (b.openForeign .mathMl
      { tag with attributes := foreignAttributes mathAttributeNames tag.attributes }).done
  | .svg =>
    (b.openForeign .svg
      { tag with attributes := foreignAttributes svgAttributeNames tag.attributes }).done
  | .misplaced => b.done
  | .other => (b.reopenFormatting.openTag tag).done

/-- The rules for end tags in the body. -/
def stepBodyEnd (name : String) (b : Builder) : Step :=
  match EndRule.ofName name with
  | .template => stepHead (.endTag name) b
  | .body =>
    if b.hasInScope (·.endsScope) "body" then { b with mode := .afterBody }.done else b.done
  | .root => if b.hasInScope (·.endsScope) "body" then b.again .afterBody else b.done
  | .block => (b.closeInScope name).done
  | .form => b.closeForm.done
  | .paragraph =>
    let b := if b.hasInScope (·.endsButtonScope) "p" then b else b.openImplied "p"
    b.closeParagraph.done
  | .listItem =>
    if b.hasInScope (·.endsListScope) name then
      ((b.closeImpliedExcept name).popThroughTag name).done
    else b.done
  | .definition =>
    if b.hasInScope (·.endsScope) name then
      ((b.closeImpliedExcept name).popThroughTag name).done
    else b.done
  | .heading =>
    if findInScope (·.endsScope) (·.name.isHeading) b.opened then
      (b.closeImplied.popThrough (·.isHeading)).done
    else b.done
  | .formatting => (b.closeFormatting name).done
  | .object =>
    if b.hasInScope (·.endsScope) name then
      (b.closeImplied.popThroughTag name).clearToMarker.done
    else b.done
  | .lineBreak => stepBodyStart ⟨"br", [], false⟩ b
  | .other => (b.closeOther name).done

/-- The rules in the body. -/
def stepBody (token : Token) (b : Builder) : Step :=
  match token with
  | .blank run => (b.reopenFormatting.addText run).done
  | .text run => (b.reopenFormatting.fixBody.addText run).done
  | .comment text => (b.addComment text).done
  | .startTag tag => stepBodyStart tag b
  | .endTag name => stepBodyEnd name b
  | .endOfText => if b.templateModes.isEmpty then b.done else b.endTemplates
  | _ => b.done

/-- The rules for the content of an element that is text. -/
def stepText (token : Token) (b : Builder) : Step :=
  match token with
  | .blank run => (b.addText run).done
  | .text run => (b.addText run).done
  | .endOfText => b.pop.again b.returnMode
  | .endTag _ => { b.pop with mode := b.returnMode }.done
  | _ => b.done

/-- The rules after the body. -/
def stepAfterBody (token : Token) (b : Builder) : Step :=
  match token with
  | .blank _ => stepBody token b
  | .comment text =>
    match b.opened.getLast? with
    | some root => (b.addCommentAt (.inside root.id) text).done
    | none => b.done
  | .startTag tag => if tag.name = "html" then (b.mergeRoot tag).done else b.again .inBody
  | .endTag name =>
    if name = "html" then { b with mode := .afterAfterBody }.done else b.again .inBody
  | .endOfText => b.done
  | _ => b.again .inBody

/-- The rules after the end tag of the root element. -/
def stepAfterAfterBody (token : Token) (b : Builder) : Step :=
  match token with
  | .blank _ => stepBody token b
  | .comment text => (b.addCommentAt (.inside Draft.document) text).done
  | .startTag tag => if tag.name = "html" then (b.mergeRoot tag).done else b.again .inBody
  | .endOfText => b.done
  | _ => b.again .inBody

end Builder

end ElementLint.Markup
