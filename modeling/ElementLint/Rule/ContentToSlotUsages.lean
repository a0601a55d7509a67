import ElementLint.Rule.Basic
import ElementLint.Selector.Parser

/-!
# Usages of slots

An element that used to choose its content by selectors keeps each selector in the attribute
`old-content-selector` of a slot. `ContentToSlotUsages.rule` warns of selectors that cannot be
carried over, and of usages of the element whose children must now name their slots; the fix of the
latter adds the attribute `slot` to each of these children.
-/

namespace ElementLint.ContentToSlotUsages

/-- The code of the rule. -/
def code : String := "content-to-slot-usages"

/-- The attribute that keeps the selector of a slot. -/
def selectorAttribute : String := "old-content-selector"

/-- A slot with a name, and the content that belongs into it. -/
structure NamedSlot where
  name : String
  selector : Selector
  deriving DecidableEq, Repr

/-- The message about a selector that cannot be carried over. -/
def problemMessage (selector : String) : Selector.Problem → String
  | .unparseable => "Unmatched selector: " ++ selector
  | .combinator combinator => "Unsupported CSS operator: " ++ combinator.word

/-- The slots with a selector in the content of a template. -/
def slotsIn (document : Document) (content : NodeId) : List NodeId :=
  document.queryAll content fun id =>
    document.hasTagName id "slot" && document.hasAttribute id selectorAttribute

/-- The selector of a slot. -/
def selectorOf (document : Document) (slot : NodeId) : String :=
  (document.attribute? slot selectorAttribute).getD ""

/-- The slot as something that content can be moved to, if it has a name and a usable selector. -/
def namedSlot? (document : Document) (slot : NodeId) : Option NamedSlot :=
  match Selector.parse (selectorOf document slot), document.attribute? slot "name" with
  | .ok selector, some name => some ⟨name, selector⟩
  | _, _ => none

/-- The warning about the selector of a slot, if that cannot be used. -/
def slotWarning? (document : Document) (slot : NodeId) : Except LintError (Option Warning) :=
  match Selector.parse (selectorOf document slot) with
  | .ok _ => .ok none
  | .error problem =>
    match document.attributeValueRange? slot selectorAttribute with
    | none => .error (noLocation selectorAttribute document.url)
    | some range =>
      .ok (some {
        code, message := problemMessage (selectorOf document slot) problem,
        severity := .warning, range })

/-- The slot that a child of a usage belongs into. A child that names its slot is left alone. -/
def slotFor? (document : Document) (slots : List NamedSlot) (child : NodeId) : Option NamedSlot :=
  if document.hasAttribute child "slot" then none
  else
    slots.find? fun slot =>
      slot.selector.accepts ((document.tagName? child).getD "") (document.attribute? child)

/-- The attribute that puts an element into a slot, as it is inserted. -/
def slotAttribute (slot : NamedSlot) : String :=
  " slot=\"" ++ slot.name ++ "\""

/-- The insertion that a child of a usage needs. -/
def insertion? (document : Document) (slots : List NamedSlot) (child : NodeId) :
    Option Replacement :=
  (slotFor? document slots child).bind fun slot =>
    document.insertAfterTagName? child (slotAttribute slot)

/-- The message about a usage of an element. -/
def usageMessage (tag : String) : String :=
  "Deprecated <content>-based distribution into <" ++ tag ++
    ">. Must use the \x60slot\x60 attribute for named distribution."

/-- The warning about a usage of an element with the given slots, if it needs a fix. -/
def usageWarning? (document : Document) (slots : List NamedSlot) (usage : NodeId) :
    Except LintError (Option Warning) :=
  let fix := (document.childElements usage).filterMap (insertion? document slots)
  if fix.isEmpty then .ok none
  else
    let tag := (document.tagName? usage).getD ""
    match document.startTagRange? usage with
    | none => .error (noLocation ("<" ++ tag ++ ">") document.url)
    | some range =>
      .ok (some { code, message := usageMessage tag, severity := .warning, range, fix := some fix })

/-- The warnings about the usages of an element anywhere in a document. -/
def usageWarnings (document : Document) (slots : List NamedSlot) (element? : Option String) :
    Except LintError (List Warning) :=
  match element? with
  | none => .ok []
  | some element =>
    if slots.isEmpty then .ok []
    else (document.elementsNamed element).filterMapM (usageWarning? document slots)

/-- The warnings about a definition: first its selectors, then the usages of its element. -/
def moduleWarnings (document : Document) (module : DomModule) : Except LintError (List Warning) :=
  match module.content? document with
  | none => .ok []
  | some content => do
    let candidates := slotsIn document content
    let problems ← candidates.filterMapM (slotWarning? document)
    let usages ← usageWarnings document (candidates.filterMap (namedSlot? document)) module.id?
    return problems ++ usages

/-- The warnings about a document. -/
def check (document : Document) : Except LintError (List Warning) :=
  (document.domModules.mapM (moduleWarnings document)).map List.flatten

/-- The rule. -/
def rule : Rule where
  code
  description := "Warns about old-content-selector values that slots cannot express, and adds " ++
    "slot attributes to children of element usages."
  check document := .ofExcept (check document)

end ElementLint.ContentToSlotUsages
