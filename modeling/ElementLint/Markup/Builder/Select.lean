import ElementLint.Markup.Builder.Body

/-!
# Selections, templates and framesets

The rules for the contents of selections, which hold little but options, for the contents of
templates, which may be parts of any other element, and for framesets.
-/

namespace ElementLint.Markup.Builder

/-- Leaves the open selection and looks at the token again. -/
def leaveSelect (b : Builder) : Step :=
  (b.popThroughTag "select").resetMode.repeated

/-- The rules in a selection. -/
def stepSelect (token : Token) (b : Builder) : Step :=
  let inScope := b.hasInScope (·.endsSelectScope) "select"
  let close := if inScope then (b.popThroughTag "select").resetMode.done else b.done
  match token with
  | .blank run => (b.addText run).done
  | .text run => (b.addText run).done
  | .comment text => (b.addComment text).done
  | .startTag tag =>
    let b' := if b.currentIs "option" then b.pop else b
    match tag.name with
    | "html" => (b.mergeRoot tag).done
    | "option" => (b'.openTag tag).done
    | "optgroup" => ((if b'.currentIs "optgroup" then b'.pop else b').openTag tag).done
    | "select" => close
    | "input" | "keygen" | "textarea" => if inScope then b.leaveSelect else b.done
    | "script" | "template" => stepHead token b
    | _ => b.done
  | .endTag name =>
    match name with
    | "optgroup" =>
      let b := match b.opened with
        | option :: group :: _ =>
          if option.name.isHtml "option" && group.name.isHtml "optgroup" then b.pop else b
        | _ => b
      (if b.currentIs "optgroup" then b.pop else b).done
    | "option" => (if b.currentIs "option" then b.pop else b).done
    | "select" => close
    | "template" => stepHead token b
    | _ => b.done
  | .endOfText => stepBody token b
  | _ => b.done

/-- The rules in a selection that stands in a table. -/
def stepSelectInTable (token : Token) (b : Builder) : Step :=
  let names := ["caption", "table", "tbody", "tfoot", "thead", "tr", "td", "th"]
  match token with
  | .startTag tag => if names.contains tag.name then b.leaveSelect else stepSelect token b
  | .endTag name =>
    if names.contains name then
      if b.hasInScope (·.endsTableScope) name then b.leaveSelect else b.done
    else stepSelect token b
  | _ => stepSelect token b

/-- The mode in which the contents of a template are read whose first tag is given. -/
def templateModeFor (name : String) : Mode :=
  match name with
  | "caption" | "colgroup" | "tbody" | "tfoot" | "thead" => .inTable
  | "col" => .inColumnGroup
  | "tr" => .inTableBody
  | "td" | "th" => .inRow
  | _ => .inBody

/-- The rules at the start of the contents of a template. -/
def stepTemplate (token : Token) (b : Builder) : Step :=
  match token with
  | .blank _ | .text _ | .comment _ => stepBody token b
  | .startTag tag =>
    if belongsToHead tag.name then stepHead token b
    else
      let mode := templateModeFor tag.name
      { b with templateModes := mode :: b.templateModes.tail }.again mode
  | .endTag name => if name = "template" then stepHead token b else b.done
  | .endOfText => b.endTemplates
  | _ => b.done

/-- The rules in a frameset. -/
def stepFrameset (token : Token) (b : Builder) : Step :=
  match token with
  | .blank run => (b.addText run).done
  | .comment text => (b.addComment text).done
  | .startTag tag =>
    match tag.name with
    | "html" => (b.mergeRoot tag).done
    | "frameset" => (b.openTag tag).done
    | "frame" => (b.addTag tag).done
    | "noframes" => stepHead token b
    | _ => b.done
  | .endTag name =>
    if name = "frameset" ∧ b.opened.length ≠ 1 then
      let b := b.pop
      (if b.currentIs "frameset" then b else { b with mode := .afterFrameset }).done
    else b.done
  | _ => b.done

/-- The rules after a frameset. -/
def stepAfterFrameset (token : Token) (b : Builder) : Step :=
  match token with
  | .blank run => (b.addText run).done
  | .comment text => (b.addComment text).done
  | .startTag tag =>
    match tag.name with
    | "html" => (b.mergeRoot tag).done
    | "noframes" => stepHead token b
    | _ => b.done
  | .endTag name => if name = "html" then { b with mode := .afterAfterFrameset }.done else b.done
  | _ => b.done

/-- The rules after the end tag of a root element with a frameset. -/
def stepAfterAfterFrameset (token : Token) (b : Builder) : Step :=
  match token with
  | .blank _ => stepBody token b
  | .comment text => (b.addCommentAt (.inside Draft.document) text).done
  | .startTag tag =>
    match tag.name with
    | "html" => (b.mergeRoot tag).done
    | "noframes" => stepHead token b
    | _ => b.done
  | _ => b.done

end ElementLint.Markup.Builder
