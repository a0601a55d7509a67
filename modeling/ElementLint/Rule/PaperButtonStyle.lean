import ElementLint.Rule.Basic

/-!
# Styles of buttons

`PaperButtonStyle.rule` warns of every definition of an element whose template uses
`<paper-button>`, and fixes it by putting a style at the start of the template. One style serves the
whole template, so only its first button is reported.
-/

namespace ElementLint.PaperButtonStyle

/-- The code of the rule. -/
def code : String := "paper-button-style"

/-- The style that restores the former display of buttons. -/
def snippet : String :=
  "<!-- Remove this to enable the vertical alignment of button content -->\n" ++
  "<style>\n" ++
  "  paper-button \x7b\n" ++
  "    display: inline-block;\n" ++
  "  \x7d\n" ++
  "</style>"

/-- The message of the warnings. -/
def message : String :=
  "paper-button style changed to display: inline-flex. " ++
  "Force its display to inline-block to have previous rendering."

/-- The spaces and tabs at the start of the first line of a text, after its first line feed, that
starts with such. -/
def indentation : List Char → List Char
  | [] => []
  | c :: rest =>
    let indent := rest.takeWhile (fun c => c == ' ' || c == '\t')
    if c = '\n' ∧ indent ≠ [] then indent else indentation rest

/-- A text on lines of its own, each with the given indentation. -/
def indented (indent text : List Char) : List Char :=
  '\n' :: indent ++ text.flatMap (fun c => if c = '\n' then '\n' :: indent else [c])

/-- The indentation of a content: that of the text it starts with. -/
def indentationOf (document : Document) (content : NodeId) : List Char :=
  match document.children content with
  | [] => []
  | first :: _ =>
    if document.isText first then indentation ((document.text? first).getD "").toList else []

/-- The insertion that fixes a template. -/
def fixText (document : Document) (content : NodeId) : String :=
  String.ofList (indented (indentationOf document content) snippet.toList)

/-- The warning about a definition whose template has a button in its content. -/
def warningFor (document : Document) (template content button : NodeId) :
    Except LintError Warning :=
  match document.elementRange? button with
  | none => .error (noLocation "<paper-button>" document.url)
  | some range =>
    match document.prependContent? template (fixText document content) with
    | none => .error (noLocation "<template>" document.url)
    | some insertion => .ok { code, message, severity := .warning, range, fix := some [insertion] }

/-- The template, its content and the first button in it, of a definition that uses buttons. -/
def usage? (document : Document) (module : DomModule) : Option (NodeId × NodeId × NodeId) :=
  (module.template? document).bind fun template =>
    (document.templateContent? template).bind fun content =>
      (document.query? content (document.hasTagName · "paper-button")).map fun button =>
        (template, content, button)

/-- The warnings about a document. -/
def check (document : Document) : Except LintError (List Warning) :=
  (document.domModules.filterMap (usage? document)).mapM fun (template, content, button) =>
    warningFor document template content button

/-- The rule. -/
def rule : Rule where
  code
  description := "Warns when a dom-module template uses paper-button, whose default display " ++
    "changed from inline-block to inline-flex."
  check document := .ofExcept (check document)

end ElementLint.PaperButtonStyle
