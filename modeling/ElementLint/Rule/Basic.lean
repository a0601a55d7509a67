import ElementLint.Document.Query
import ElementLint.Error

/-!
# Rules

A rule looks at one document and answers warnings. It only reads the document. It may fail or abort,
which concerns this rule and this document alone.
-/

namespace ElementLint

/-- A rule. -/
structure Rule where
  /-- The name by which the rule is chosen and its warnings are told apart. -/
  code : String
  description : String
  check : Document → Outcome (List Warning)

/-- The template that defines the content of an element: the first one in its definition. -/
def DomModule.template? (module : DomModule) (document : Document) : Option NodeId :=
  document.query? module.node (document.hasTagName · "template")

/-- The inert content of the template of a definition. -/
def DomModule.content? (module : DomModule) (document : Document) : Option NodeId :=
  (module.template? document).bind document.templateContent?

/-- The failure of a rule that needs the place of something that has none in the text. -/
def noLocation (what url : String) : LintError :=
  .ruleFailed ("no source location for " ++ what ++ " in " ++ url)

end ElementLint
