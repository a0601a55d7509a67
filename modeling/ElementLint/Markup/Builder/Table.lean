import ElementLint.Markup.Builder.Body

/-!
# Tables

The rules for a table and its parts. What may not stand in a table goes before it; text waits until
it is known whether all of it is blank.
-/

namespace ElementLint.Markup.Builder

/-- Handles a token by the rules of the body, with nodes going before the table. -/
def stepFostered (token : Token) (b : Builder) : Step :=
  let step := stepBody token { b with fostering := true }
  { step with builder := { step.builder with fostering := false } }

/-- Text in a table: it waits if it stands between the parts of the table. -/
def stepTableText (token : Token) (b : Builder) : Step :=
  if b.currentIn (·.isTablePart) then { b with returnMode := b.mode }.again .inTableText
  else stepFostered token b

/-- Closes what is open up to the nearest element of a context. -/
def backTo (b : Builder) (context : ElementName → Bool) : Builder :=
  b.popWhile (fun name => !context name)

/-- Whether a part of a table is open in the present table. -/
def inTable (b : Builder) (tag : String) : Bool :=
  b.hasInScope (·.endsTableScope) tag

/-- The rules in a table. -/
def stepTable (token : Token) (b : Builder) : Step :=
  match token with
  | .null | .blank _ | .text _ => stepTableText token b
  | .comment text => (b.addComment text).done
  | .startTag tag =>
    let cleared := b.backTo (·.endsTableScope)
    match tag.name with
    | "caption" => { cleared.addMarker.openTag tag with mode := .inCaption }.done
    | "colgroup" => { cleared.openTag tag with mode := .inColumnGroup }.done
    | "col" => (cleared.openImplied "colgroup").again .inColumnGroup
    | "tbody" | "tfoot" | "thead" => { cleared.openTag tag with mode := .inTableBody }.done
    | "td" | "th" | "tr" => (cleared.openImplied "tbody").again .inTableBody
    | "table" =>
      if b.inTable "table" then (b.popThroughTag "table").resetMode.repeated else b.done
    | "style" | "script" | "template" => stepHead token b
    | "input" => if tag.isHidden then (b.addTag tag).done else stepFostered token b
    | "form" =>
      if !b.hasOpen "template" && b.form.isNone then
        let (b, id) := b.addElement ⟨.html, tag.name⟩ tag.attributes
        { b with form := some id }.done
      else b.done
    | _ => stepFostered token b
  | .endTag name =>
    match name with
    | "table" => if b.inTable "table" then (b.popThroughTag "table").resetMode.done else b.done
    | "body" | "caption" | "col" | "colgroup" | "html" | "tbody" | "td" | "tfoot" | "th"
    | "thead" | "tr" => b.done
    | "template" => stepHead token b
    | _ => stepFostered token b
  | .endOfText => stepBody token b
  | _ => stepFostered token b

/-- Whether a token of waiting text is not blank. -/
def isInk : Token → Bool
  | .text _ => true
  | _ => false

/-- Adds a token of waiting text to the table. -/
def addWaiting (b : Builder) : Token → Builder
  | .blank run => b.addText run
  | .text run => b.addText run
  | _ => b

/-- The rules while text of a table waits. -/
def stepWaitingText (token : Token) (b : Builder) : Step :=
  match token with
  | .null => b.done
  | .blank _ | .text _ => { b with tableText := token :: b.tableText }.done
  | _ =>
    let waiting := b.tableText.reverse
    let b := { b with tableText := [] }
    -- one character that is not blank moves all of the text before the table
    let b := if waiting.any isInk then
        waiting.foldl (fun b token => (stepFostered token b).builder) b
      else waiting.foldl addWaiting b
    b.again b.returnMode

/-- The rules in a caption. -/
def stepCaption (token : Token) (b : Builder) : Step :=
  let closed := (b.closeImplied.popThroughTag "caption").clearToMarker
  match token with
  | .startTag tag =>
    if ["caption", "col", "colgroup", "tbody", "td", "tfoot", "th", "thead", "tr"].contains tag.name
    then if b.inTable "caption" then closed.again .inTable else b.done
    else stepBody token b
  | .endTag name =>
    match name with
    | "caption" => if b.inTable "caption" then { closed with mode := .inTable }.done else b.done
    | "table" => if b.inTable "caption" then closed.again .inTable else b.done
    | "body" | "col" | "colgroup" | "html" | "tbody" | "td" | "tfoot" | "th" | "thead" | "tr" =>
      b.done
    | _ => stepBody token b
  | _ => stepBody token b

/-- The rules in a group of columns. -/
def stepColumnGroup (token : Token) (b : Builder) : Step :=
  let leave := if b.currentIs "colgroup" then b.pop.again .inTable else b.done
  match token with
  | .blank run => (b.addText run).done
  | .comment text => (b.addComment text).done
  | .startTag tag =>
    match tag.name with
    | "html" => (b.mergeRoot tag).done
    | "col" => (b.addTag tag).done
    | "template" => stepHead token b
    | _ => leave
  | .endTag name =>
    match name with
    | "colgroup" =>
      if b.currentIs "colgroup" then { b.pop with mode := .inTable }.done else b.done
    | "col" => b.done
    | "template" => stepHead token b
    | _ => leave
  | .endOfText => stepBody token b
  | _ => leave

/-- The rules in a group of rows. -/
def stepTableBody (token : Token) (b : Builder) : Step :=
  let cleared := b.backTo (·.isRowGroupContext)
  let leave :=
    if findInScope (·.endsTableScope) (·.name.isHtmlIn ["table", "tbody", "tfoot"]) b.opened then
      cleared.pop.again .inTable
    else b.done
  match token with
  | .startTag tag =>
    match tag.name with
    | "tr" => { cleared.openTag tag with mode := .inRow }.done
    | "th" | "td" => (cleared.openImplied "tr").again .inRow
    | "caption" | "col" | "colgroup" | "tbody" | "tfoot" | "thead" => leave
    | _ => stepTable token b
  | .endTag name =>
    match name with
    | "tbody" | "tfoot" | "thead" =>
      if b.inTable name then { cleared.pop with mode := .inTable }.done else b.done
    | "table" => leave
    | "body" | "caption" | "col" | "colgroup" | "html" | "td" | "th" | "tr" => b.done
    | _ => stepTable token b
  | _ => stepTable token b

/-- The rules in a row. -/
def stepRow (token : Token) (b : Builder) : Step :=
  let cleared := b.backTo (·.isRowContext)
  let leave := if b.inTable "tr" then cleared.pop.again .inTableBody else b.done
  match token with
  | .startTag tag =>
    match tag.name with
    | "th" | "td" => { (cleared.openTag tag).addMarker with mode := .inCell }.done
    | "caption" | "col" | "colgroup" | "tbody" | "tfoot" | "thead" | "tr" => leave
    | _ => stepTable token b
  | .endTag name =>
    match name with
    | "tr" => if b.inTable "tr" then { cleared.pop with mode := .inTableBody }.done else b.done
    | "table" => leave
    | "tbody" | "tfoot" | "thead" => if b.inTable name then leave else b.done
    | "body" | "caption" | "col" | "colgroup" | "html" | "td" | "th" => b.done
    | _ => stepTable token b
  | _ => stepTable token b

/-- Closes the open cell. -/
def closeCell (b : Builder) : Builder :=
  (b.closeImplied.popThrough (·.isHtmlIn ["td", "th"])).clearToMarker

/-- The rules in a cell. -/
def stepCell (token : Token) (b : Builder) : Step :=
  match token with
  | .startTag tag =>
    if ["caption", "col", "colgroup", "tbody", "td", "tfoot", "th", "thead", "tr"].contains tag.name
    then
      if findInScope (·.endsTableScope) (·.name.isHtmlIn ["td", "th"]) b.opened then
        b.closeCell.again .inRow
      else b.done
    else stepBody token b
  | .endTag name =>
    match name with
    | "td" | "th" =>
      if b.inTable name then
        { (b.closeImplied.popThroughTag name).clearToMarker with mode := .inRow }.done
      else b.done
    | "body" | "caption" | "col" | "colgroup" | "html" => b.done
    | "table" | "tbody" | "tfoot" | "thead" | "tr" =>
      if b.inTable name then b.closeCell.again .inRow else b.done
    | _ => stepBody token b
  | _ => stepBody token b

end ElementLint.Markup.Builder
