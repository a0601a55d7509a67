import ElementLint.Proofs.Document.Ancestors
import ElementLint.Proofs.Document.Places
import ElementLint.Proofs.Rule.Definitions
import ElementLint.Proofs.Rule.Indentation

/-!
# What the rule about buttons warns of

`PaperButtonStyle.Specified` says of a list of warnings that it is the one that a document asks for,
without a search: the first template of a definition and the first button in its content are the
least nodes of their kind, and the inserted text is put together from the lines of the snippet and
the indentation of the content. The rule answers the specified warnings and fails if a button or a
template that they are about has no place (`check_parse_iff_specified`).
-/

namespace ElementLint.PaperButtonStyle

open Document ElementLint.Span Text

variable {document : Document} {module template content button id : NodeId}
  {warning : Warning} {warnings : List Warning}

/-! ### The warnings that a document asks for -/

/-- A definition with its template, which is the first one below it, and the first button in the
content of that. -/
structure Qualifies (document : Document) (module template content button : NodeId) : Prop where
  below : document.Below root module
  tag : document.tagName? module = some "dom-module"
  template_least :
    IsLeast {id | document.Below module id ∧ document.tagName? id = some "template"} template
  content_eq : document.templateContent? template = some content
  button_least :
    IsLeast {id | document.Below content id ∧ document.tagName? id = some "paper-button"} button

/-- A node that is the given text. -/
def IsText (document : Document) (id : NodeId) (text : String) : Prop :=
  ∃ node, document.node? id = some node ∧ node.kind = .text text

/-- Some content whose first node is the given text. -/
def StartsWith (document : Document) (content : NodeId) (text : String) : Prop :=
  ∃ first, IsLeast {child | document.IsParent content child} first ∧ IsText document first text

/-- Some content is indented like the text that it starts with. -/
def IsIndented (document : Document) (content : NodeId) (indent : List Char) : Prop :=
  (∃ text, StartsWith document content text ∧ Indents text.toList indent) ∨
    (∀ text, ¬ StartsWith document content text) ∧ indent = []

/-- The text that the fix of some content inserts: the lines of the snippet, each on a line of its
own with the indentation of the content. -/
def IsFixText (document : Document) (content : NodeId) (text : String) : Prop :=
  ∃ indent lines, IsIndented document content indent ∧ CutsAt '\n' snippet.toList lines ∧
    text.toList = lines.flatMap fun line => '\n' :: (indent ++ line)

/-- The warning about a definition stands at the first button; its fix inserts a text at the end of
the start tag of the template, which comes before the button. -/
def Warns (document : Document) (module : NodeId) (warning : Warning) : Prop :=
  ∃ template content button span templateSpan text,
    Qualifies document module template content button ∧
    document.span? button = some span ∧ document.span? template = some templateSpan ∧
    templateSpan.startTagEnd ≤ span.start ∧ IsFixText document content text ∧
    warning = {
      code, message, severity := .warning, range := document.rangeOf ⟨span.start, span.stop⟩,
      fix := some [⟨document.rangeOf ⟨templateSpan.startTagEnd, templateSpan.startTagEnd⟩, text⟩] }

/-- The warnings about a document: one for each definition with a button. -/
def Specified (document : Document) (warnings : List Warning) : Prop :=
  ∃ modules, Lists (fun module =>
      ∃ template content button, Qualifies document module template content button) modules ∧
    List.Forall₂ (Warns document) modules warnings

/-- A button or a template that the document asks for a warning about and that has no place in its
text. -/
def Unplaced (document : Document) : Prop :=
  ∃ module template content button, Qualifies document module template content button ∧
    (document.span? button = none ∨ document.span? template = none)

/-! ### The warning about a definition -/

theorem warningFor_eq_ok_iff :
    warningFor document template content button = .ok warning ↔
      ∃ span templateSpan, document.span? button = some span ∧
        document.span? template = some templateSpan ∧
        warning = {
          code, message, severity := .warning, range := document.rangeOf ⟨span.start, span.stop⟩,
          fix := some [⟨document.rangeOf ⟨templateSpan.startTagEnd, templateSpan.startTagEnd⟩,
            fixText document content⟩] } := by
  rw [warningFor, elementRange?, prependContent?]
  cases document.span? button <;> cases document.span? template <;> simp [eq_comm]

theorem exists_warningFor_eq_error_iff :
    (∃ error, warningFor document template content button = .error error) ↔
      document.span? button = none ∨ document.span? template = none := by
  rw [warningFor, elementRange?, prependContent?]
  cases document.span? button <;> cases document.span? template <;> simp

/-- The start tag of the template of a definition ends before the first button. -/
theorem Qualifies.startTagEnd_le (hplaced : document.WellPlaced) {span templateSpan : TagSpan}
    (h : Qualifies document module template content button)
    (hspan : document.span? button = some span)
    (htemplateSpan : document.span? template = some templateSpan) :
    templateSpan.startTagEnd ≤ span.start := by
  have hlt : template < button := calc
    template < content :=
      hplaced.isTree.lt_of_standsUnder (standsUnder_of_templateContent? h.content_eq)
    _ < button := hplaced.isTree.lt_of_below h.button_least.1.1
  have htemplate := isElement_iff.2 ⟨_, h.template_least.1.2⟩
  have hbutton := isElement_iff.2 ⟨_, h.button_least.1.2⟩
  exact hplaced.spansOrdered template button templateSpan span hlt htemplate hbutton htemplateSpan
    hspan

/-! ### The inserted text -/

theorem isText_iff {text : String} :
    IsText document id text ↔ document.isText id = true ∧ document.text? id = some text := by
  rw [IsText, isText, text?]
  cases document.node? id with
  | none => simp
  | some node =>
    obtain ⟨kind, children, span⟩ := node
    cases kind <;> simp

section Ordered

variable (hordered : document.Ordered)
include hordered

theorem startsWith_iff {text : String} :
    StartsWith document content text ↔
      ∃ first, (document.children content).head? = some first ∧ document.isText first = true ∧
        document.text? first = some text := by
  simp only [StartsWith, (hordered.lists_children content).head?_eq_some_iff, isText_iff]

/-- The content is indented by what it starts with, unless that is no text. -/
theorem isIndented_indentationOf (content : NodeId) :
    IsIndented document content (indentationOf document content) := by
  rw [indentationOf]
  split
  · next hchildren =>
    -- an empty content starts with nothing
    refine .inr ⟨fun text hstarts => ?_, rfl⟩
    obtain ⟨first, hfirst, -⟩ := (startsWith_iff hordered).1 hstarts
    rw [hchildren] at hfirst
    contradiction
  · next first rest hchildren =>
    split
    · next htext =>
      obtain ⟨node, hnode, text, hkind⟩ : ∃ node, document.node? first = some node ∧
          ∃ text, node.kind = .text text := by
        rw [isText] at htext
        split at htext
        · next text children span hnode => exact ⟨_, hnode, text, rfl⟩
        · contradiction
      obtain ⟨-, hread⟩ := isText_iff.1 ⟨node, hnode, hkind⟩
      rw [hread, Option.getD_some]
      exact .inl ⟨text, (startsWith_iff hordered).2 ⟨first, by rw [hchildren]; rfl, htext, hread⟩,
        indentation_eq_iff.1 rfl⟩
    · next htext =>
      -- the first node is no text, so the content starts with none
      refine .inr ⟨fun text hstarts => ?_, rfl⟩
      obtain ⟨other, hother, hothertext, -⟩ := (startsWith_iff hordered).1 hstarts
      rw [hchildren] at hother
      obtain rfl := Option.some.inj hother
      exact htext hothertext

theorem StartsWith.unique {text text' : String} (h : StartsWith document content text)
    (h' : StartsWith document content text') : text = text' := by
  obtain ⟨first, hfirst, -, htext⟩ := (startsWith_iff hordered).1 h
  obtain ⟨first', hfirst', -, htext'⟩ := (startsWith_iff hordered).1 h'
  obtain rfl := Option.some.inj (hfirst.symm.trans hfirst')
  exact Option.some.inj (htext.symm.trans htext')

theorem IsIndented.unique {indent indent' : List Char} (h : IsIndented document content indent)
    (h' : IsIndented document content indent') : indent = indent' := by
  rcases h with ⟨text, htext, hindents⟩ | ⟨hnone, rfl⟩
  · rcases h' with ⟨text', htext', hindents'⟩ | ⟨hnone, -⟩
    · obtain rfl := htext.unique hordered htext'
      exact (indentation_eq_iff.2 hindents).symm.trans (indentation_eq_iff.2 hindents')
    · exact absurd htext (hnone text)
  · rcases h' with ⟨text', htext', -⟩ | ⟨-, rfl⟩
    · exact absurd htext' (hnone text')
    · rfl

/-- The fix inserts what the content asks for. -/
theorem isFixText_iff {text : String} :
    IsFixText document content text ↔ text = fixText document content := by
  have hindented := isIndented_indentationOf hordered content
  constructor
  · rintro ⟨indent, lines, hindent, hlines, htext⟩
    obtain rfl := hindent.unique hordered hindented
    rw [fixText, indented_eq_flatMap hlines, ← htext, String.ofList_toList]
  · rintro rfl
    have hlines := cutsAt_pieces '\n' snippet.toList
    refine ⟨_, _, hindented, hlines, ?_⟩
    rw [fixText, indented_eq_flatMap hlines, String.toList_ofList]

/-! ### The definitions that qualify -/

/-- The template and the button that the rule finds. -/
theorem usage?_eq_some_iff (hbelow : document.Below root module)
    (htag : document.tagName? module = some "dom-module") :
    usage? document (document.definition module) = some (template, content, button) ↔
      Qualifies document module template content button := by
  simp only [usage?, Option.bind_eq_some_iff, Option.map_eq_some_iff, Prod.mk.injEq,
    hordered.template?_eq_some_iff, hordered.query?_eq_some_iff]
  constructor
  · rintro ⟨_, htemplate, _, hcontent, _, hbutton, rfl, rfl, rfl⟩
    exact ⟨hbelow, htag, htemplate, hcontent, hbutton⟩
  · intro h
    exact ⟨_, h.template_least, _, h.content_eq, _, h.button_least, rfl, rfl, rfl⟩

theorem Qualifies.usage?_eq (h : Qualifies document module template content button) :
    usage? document (document.definition module) = some (template, content, button) :=
  (usage?_eq_some_iff hordered h.below h.tag).2 h

theorem lists_qualifying :
    Lists (fun module =>
        ∃ template content button, Qualifies document module template content button)
      ((document.queryAll root (document.hasTagName · "dom-module")).filter
        fun module => (usage? document (document.definition module)).isSome) := by
  refine (hordered.lists_domModules.filter _).congr fun module => ?_
  rw [Option.isSome_iff_exists]
  constructor
  · rintro ⟨⟨hbelow, htag⟩, ⟨template, content, button⟩, husage⟩
    exact ⟨template, content, button, (usage?_eq_some_iff hordered hbelow htag).1 husage⟩
  · rintro ⟨template, content, button, h⟩
    exact ⟨⟨h.below, h.tag⟩, _, h.usage?_eq hordered⟩

end Ordered

/-! ### The warnings about a document -/

/-- The warning about a `<dom-module>`, if it has a button. -/
def warning? (document : Document) (module : NodeId) : Except LintError (Option Warning) :=
  match usage? document (document.definition module) with
  | none => .ok none
  | some (template, content, button) => (warningFor document template content button).map some

theorem check_eq_filterMapM (document : Document) :
    check document =
      (document.queryAll root (document.hasTagName · "dom-module")).filterMapM
        (warning? document) := by
  rw [check, domModules_eq_map, List.filterMap_map, Except.mapM_filterMap]
  refine congrArg (List.filterMapM · _) (funext fun module => ?_)
  rw [warning?, Function.comp_apply]
  cases usage? document (document.definition module) <;> rfl

theorem warning?_eq_ok_none
    (h : (usage? document (document.definition module)).isSome = false) :
    warning? document module = .ok none := by
  rw [warning?, Option.isNone_iff_eq_none.1 (Option.isSome_eq_false_iff.1 h)]

theorem Qualifies.warning?_eq (hordered : document.Ordered)
    (h : Qualifies document module template content button) :
    warning? document module = (warningFor document template content button).map some := by
  rw [warning?, h.usage?_eq hordered]

/-- A definition with a button is warned of as it asks for. -/
theorem warning?_eq_ok_iff (hordered : document.Ordered) (hplaced : document.WellPlaced)
    {found : Option Warning} (h : Qualifies document module template content button) :
    warning? document module = .ok found ↔
      ∃ warning, found = some warning ∧ Warns document module warning := by
  rw [h.warning?_eq hordered]
  constructor
  · intro hwarning
    obtain ⟨warning, hanswer, rfl⟩ := Except.exists_of_map_eq_ok hwarning
    obtain ⟨span, templateSpan, hspan, htemplateSpan, rfl⟩ := warningFor_eq_ok_iff.1 hanswer
    exact ⟨_, rfl, template, content, button, span, templateSpan, _, h, hspan, htemplateSpan,
      h.startTagEnd_le hplaced hspan htemplateSpan, (isFixText_iff hordered).2 rfl, rfl⟩
  · rintro ⟨warning, rfl, template', content', button', span, templateSpan, text, h', hspan,
      htemplateSpan, -, htext, rfl⟩
    -- a definition has one template, one content and one first button
    obtain ⟨rfl, rfl, rfl⟩ : template = template' ∧ content = content' ∧ button = button' := by
      have heq := (h.usage?_eq hordered).symm.trans (h'.usage?_eq hordered)
      simpa using heq
    obtain rfl := (isFixText_iff hordered).1 htext
    rw [warningFor_eq_ok_iff.2 ⟨span, templateSpan, hspan, htemplateSpan, rfl⟩]
    rfl

theorem exists_warning?_eq_error_iff (hordered : document.Ordered)
    (h : Qualifies document module template content button) :
    (∃ error, warning? document module = .error error) ↔
      document.span? button = none ∨ document.span? template = none := by
  rw [h.warning?_eq hordered, Except.exists_map_eq_error_iff, exists_warningFor_eq_error_iff]

/-- The rule warns of what a parsed document asks for, and of nothing else: one warning for each
definition with a button, in their order. It fails if the first button of such a definition or its
template has no place in the text, and only then. -/
theorem check_parse_iff_specified (url contents : String) :
    (∀ warnings, check (parse url contents) = .ok warnings ↔
      Specified (parse url contents) warnings) ∧
    ((∃ error, check (parse url contents) = .error error) ↔ Unplaced (parse url contents)) := by
  have hordered := ordered_parse url contents
  have hlist := lists_qualifying hordered
  rw [check_eq_filterMapM]
  constructor
  · intro warnings
    exact filterMapM_eq_ok_iff_of_lists hlist (fun _ => warning?_eq_ok_none)
      fun _ ⟨_, _, _, h⟩ _ => warning?_eq_ok_iff hordered (wellPlaced_parse url contents) h
  · rw [exists_filterMapM_eq_error_iff_of_lists hlist fun _ => warning?_eq_ok_none]
    constructor
    · rintro ⟨module, ⟨template, content, button, h⟩, herror⟩
      exact ⟨module, template, content, button, h,
        (exists_warning?_eq_error_iff hordered h).1 herror⟩
    · rintro ⟨module, template, content, button, h, hnone⟩
      exact ⟨module, ⟨template, content, button, h⟩,
        (exists_warning?_eq_error_iff hordered h).2 hnone⟩

end ElementLint.PaperButtonStyle
