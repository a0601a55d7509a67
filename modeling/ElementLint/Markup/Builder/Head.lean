import ElementLint.Markup.Builder.Formatting

/-!
# The head of a document

The rules for what belongs to the head of a document. Some of them apply in other places too:
templates, scripts and the like may stand nearly anywhere.
-/

namespace ElementLint.Markup.Builder

/-- A second tag of the root element gives it the attributes that it does not have yet. -/
def mergeRoot (b : Builder) (tag : Tag) : Builder :=
  match b.opened.getLast? with
  | some root =>
    if b.hasOpen "template" then b
    else { b with draft := b.draft.addMissingAttributes root.id tag.attributes }
  | none => b

/-- Opens a template. -/
def openTemplate (b : Builder) (tag : Tag) : Builder :=
  let b := (b.openTag tag).addMarker
  { b with
    framesetAllowed := false
    mode := .inTemplate
    templateModes := .inTemplate :: b.templateModes }

/-- Closes the innermost open template, when its end tag or the end of the text is met. -/
def closeTemplate (b : Builder) : Builder :=
  let b := (b.popThroughTag "template").clearToMarker
  { b with templateModes := b.templateModes.tail }.resetMode

/-- The rules in the head. -/
def stepHead (token : Token) (b : Builder) : Step :=
  let leave := b.pop.again .afterHead
  match token with
  | .blank run => (b.addText run).done
  | .comment text => (b.addComment text).done
  | .startTag tag =>
    match tag.name with
    | "html" => (b.mergeRoot tag).done
    | "base" | "basefont" | "bgsound" | "link" | "meta" => (b.addTag tag).done
    | "title" => (b.openWithText tag (.referenceText tag.name)).done
    | "noframes" | "style" | "noscript" => (b.openWithText tag (.rawText tag.name)).done
    | "script" => (b.openWithText tag .script).done
    | "template" => (b.openTemplate tag).done
    | "head" => b.done
    | _ => leave
  | .endTag name =>
    match name with
    | "head" => { b.pop with mode := .afterHead }.done
    | "body" | "html" | "br" => leave
    | "template" =>
      if b.hasOpen "template" then (b.popWhile (·.endsWithTemplate)).closeTemplate.done else b.done
    | _ => b.done
  | _ => leave

/-- The rules for a template when the text ends: templates are closed from the inside out. -/
def endTemplates (b : Builder) : Step :=
  if b.hasOpen "template" then b.closeTemplate.repeated else b.done

/-- The rules before the first tag. -/
def stepInitial (token : Token) (b : Builder) : Step :=
  match token with
  | .blank _ => b.done
  | .comment text => (b.addCommentAt (.inside Draft.document) text).done
  | _ => { b with oldDocument := true }.again .beforeHtml

/-- The rules before the root element. -/
def stepBeforeHtml (token : Token) (b : Builder) : Step :=
  let leave := (b.openRoot []).again .beforeHead
  match token with
  | .blank _ => b.done
  | .comment text => (b.addCommentAt (.inside Draft.document) text).done
  | .startTag tag =>
    if tag.name = "html" then { b.openRoot tag.attributes with mode := .beforeHead }.done else leave
  | .endTag name =>
    if ["head", "body", "html", "br"].contains name then leave else b.done
  | _ => leave

/-- Opens the head for a tag. -/
def openHead (b : Builder) (attributes : List Attribute) : Builder :=
  let (b, id) := b.openElement ⟨.html, "head"⟩ attributes
  { b with head := some id }

/-- The rules before the head. -/
def stepBeforeHead (token : Token) (b : Builder) : Step :=
  let leave := (b.openHead []).again .inHead
  match token with
  | .blank _ => b.done
  | .comment text => (b.addComment text).done
  | .startTag tag =>
    match tag.name with
    | "html" => (b.mergeRoot tag).done
    | "head" => { b.openHead tag.attributes with mode := .inHead }.done
    | _ => leave
  | .endTag name =>
    if ["head", "body", "html", "br"].contains name then leave else b.done
  | _ => leave

/-- Whether a start tag belongs into the head wherever it stands. -/
def belongsToHead (name : String) : Bool :=
  ["base", "basefont", "bgsound", "link", "meta", "noframes", "script", "style", "template",
    "title"].contains name

/-- The rules after the head. What belongs into the head is still put there. -/
def stepAfterHead (token : Token) (b : Builder) : Step :=
  let leave := (b.openImplied "body").again .inBody
  match token with
  | .blank run => (b.addText run).done
  | .comment text => (b.addComment text).done
  | .startTag tag =>
    match tag.name with
    | "html" => (b.mergeRoot tag).done
    | "body" => { b.openTag tag with framesetAllowed := false, mode := .inBody }.done
    | "frameset" => { b.openTag tag with mode := .inFrameset }.done
    | "head" => b.done
    | _ =>
      if belongsToHead tag.name then
        match b.head with
        | none => b.done
        | some head =>
          -- the head is open again for this tag alone
          let inHead := { b with opened := ⟨head, ⟨.html, "head"⟩⟩ :: b.opened }
          let step := stepHead token inHead
          { step with builder := step.builder.unopen head }
      else leave
  | .endTag name =>
    match name with
    | "template" => stepHead token b
    | "body" | "html" | "br" => leave
    | _ => b.done
  | _ => leave

end ElementLint.Markup.Builder
