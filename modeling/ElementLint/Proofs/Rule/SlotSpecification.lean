import ElementLint.Proofs.Rule.Definitions
import ElementLint.Proofs.Rule.SlotInsertions
import ElementLint.Proofs.Selector.Matching

/-!
# What the rule about slots warns of

`ContentToSlotUsages.Specified` says of a list of warnings that it is the one that a document asks
for, without a search: what is a definition, a slot of it, a usage of it and a child that must be
moved are relations between nodes, and the nodes of each kind are listed in the order of their
numbers. The rule answers the specified warnings and fails if one of them has no place
(`check_parse_iff`).
-/

namespace ElementLint.ContentToSlotUsages

open Document

variable {document : Document} {module content slot usage child : NodeId}
  {slots : List NamedSlot} {warnings : List Warning}

/-! ### The warnings that a document asks for -/

/-- A definition with the content of its template, which is the first one below it. -/
structure Defines (document : Document) (module content : NodeId) : Prop where
  below : document.Below root module
  tag : document.tagName? module = some "dom-module"
  template : ∃ template,
    IsLeast {id | document.Below module id ∧ document.tagName? id = some "template"} template ∧
      document.templateContent? template = some content

/-- A slot in some content that keeps a selector. -/
structure KeepsSelector (document : Document) (content slot : NodeId) (selector : String) :
    Prop where
  below : document.Below content slot
  tag : document.tagName? slot = some "slot"
  keeps : document.attribute? slot selectorAttribute = some selector

/-- A slot whose selector cannot be used. -/
def IsProblem (document : Document) (content slot : NodeId) : Prop :=
  ∃ selector problem, KeepsSelector document content slot selector ∧
    Selector.parse selector = .error problem

/-- A slot whose selector matches a node, and the name of the slot. -/
def Takes (document : Document) (content child slot : NodeId) (name : String) : Prop :=
  ∃ text selector tag, KeepsSelector document content slot text ∧
    Selector.parse text = .ok selector ∧ document.attribute? slot "name" = some name ∧
    document.tagName? child = some tag ∧ selector.Matches tag (document.attribute? child)

/-- The name of the first slot that takes a node. -/
def BelongsTo (document : Document) (content child : NodeId) (name : String) : Prop :=
  ∃ slot, IsLeast {slot | ∃ name, Takes document content child slot name} slot ∧
    Takes document content child slot name

/-- A child of a usage that must name its slot. -/
structure IsMoved (document : Document) (content usage child : NodeId) : Prop where
  below : document.IsParent usage child
  free : document.attribute? child "slot" = none
  belongs : ∃ name, BelongsTo document content child name
  placed : ∃ span, document.span? child = some span

/-- The insertion of the name of the slot that a child belongs to. -/
def IsInsertion (document : Document) (content child : NodeId) (insertion : Replacement) : Prop :=
  ∃ name span, BelongsTo document content child name ∧ document.span? child = some span ∧
    insertion = ⟨document.rangeOf ⟨span.nameEnd, span.nameEnd⟩, " slot=\"" ++ name ++ "\""⟩

/-- A usage of a defined element with a child that must be moved. -/
structure IsUsage (document : Document) (module content usage : NodeId) : Prop where
  tag : ∃ element, document.attribute? module "id" = some element ∧
    document.tagName? usage = some element
  moved : ∃ child, IsMoved document content usage child

/-- The warning about a slot stands at its selector and has no fix. -/
def WarnsOfProblem (document : Document) (slot : NodeId) (warning : Warning) : Prop :=
  ∃ selector problem range, document.attribute? slot selectorAttribute = some selector ∧
    Selector.parse selector = .error problem ∧
    document.attributeValueRange? slot selectorAttribute = some range ∧
    warning = { code, message := problemMessage selector problem, severity := .warning, range }

/-- The warning about a usage stands at its start tag; its fix has an insertion for each child that
must be moved. -/
def WarnsOfUsage (document : Document) (content usage : NodeId) (warning : Warning) : Prop :=
  ∃ tag range children fix, document.tagName? usage = some tag ∧
    document.startTagRange? usage = some range ∧
    Lists (IsMoved document content usage) children ∧
    List.Forall₂ (IsInsertion document content) children fix ∧
    warning = { code, message := usageMessage tag, severity := .warning, range, fix := some fix }

/-- The warnings about a definition: one for each problem and then one for each usage. -/
def Warns (document : Document) (module : NodeId) (warnings : List Warning) : Prop :=
  ∃ content problems problemWarnings usages usageWarnings,
    Defines document module content ∧
    Lists (IsProblem document content) problems ∧
    List.Forall₂ (WarnsOfProblem document) problems problemWarnings ∧
    Lists (IsUsage document module content) usages ∧
    List.Forall₂ (WarnsOfUsage document content) usages usageWarnings ∧
    warnings = problemWarnings ++ usageWarnings

/-- The warnings about a document: those about each definition. -/
def Specified (document : Document) (warnings : List Warning) : Prop :=
  ∃ modules answers, Lists (fun module => ∃ content, Defines document module content) modules ∧
    List.Forall₂ (Warns document) modules answers ∧ warnings = answers.flatten

/-- A warning that the document asks for and that has no place in its text. -/
def Unplaced (document : Document) : Prop :=
  ∃ module content, Defines document module content ∧
    ((∃ slot, IsProblem document content slot ∧
        document.attributeValueRange? slot selectorAttribute = none) ∨
      ∃ usage, IsUsage document module content usage ∧ document.startTagRange? usage = none)

/-! ### The slots of a definition -/

/-- The slots that content can be moved to. -/
def namedSlotsIn (document : Document) (content : NodeId) : List NamedSlot :=
  (slotsIn document content).filterMap (namedSlot? document)

/-- Whether the selector of a slot cannot be used. -/
def hasProblem (document : Document) (slot : NodeId) : Bool :=
  match Selector.parse (selectorOf document slot) with
  | .ok _ => false
  | .error _ => true

theorem KeepsSelector.selectorOf_eq {selector : String}
    (h : KeepsSelector document content slot selector) : selectorOf document slot = selector := by
  rw [selectorOf, h.keeps, Option.getD_some]

theorem hasProblem_eq_true_iff :
    hasProblem document slot = true ↔
      ∃ problem, Selector.parse (selectorOf document slot) = .error problem := by
  unfold hasProblem
  split <;> simp_all

theorem namedSlot?_eq_some_iff {named : NamedSlot} :
    namedSlot? document slot = some named ↔
      Selector.parse (selectorOf document slot) = .ok named.selector ∧
        document.attribute? slot "name" = some named.name := by
  unfold namedSlot?
  split
  · next selector name hselector hname =>
    rw [hselector, hname]
    obtain ⟨name', selector'⟩ := named
    simp [and_comm]
  · next hnone =>
    simp only [reduceCtorEq, false_iff, not_and]
    exact hnone _ _

theorem slotWarning?_of_parse_eq_error {selector : String} {problem : Selector.Problem}
    (hkeeps : document.attribute? slot selectorAttribute = some selector)
    (hproblem : Selector.parse selector = .error problem) :
    slotWarning? document slot =
      match document.attributeValueRange? slot selectorAttribute with
      | none => .error (noLocation selectorAttribute document.url)
      | some range => .ok (some
          { code, message := problemMessage selector problem, severity := .warning, range }) := by
  have hselector : selectorOf document slot = selector := by
    rw [selectorOf, hkeeps, Option.getD_some]
  unfold slotWarning?
  cases document.attributeValueRange? slot selectorAttribute <;>
    simp only [hselector, hproblem]

theorem slotWarning?_eq_ok_none (h : hasProblem document slot = false) :
    slotWarning? document slot = .ok none := by
  cases hparse : Selector.parse (selectorOf document slot) with
  | ok selector => simp only [slotWarning?, hparse]
  | error problem =>
    rw [hasProblem_eq_true_iff.2 ⟨problem, hparse⟩] at h
    contradiction

/-- A slot whose selector cannot be used is warned of at that selector. -/
theorem slotWarning?_eq_ok_iff {found : Option Warning} (h : IsProblem document content slot) :
    slotWarning? document slot = .ok found ↔
      ∃ warning, found = some warning ∧ WarnsOfProblem document slot warning := by
  obtain ⟨selector, problem, hslot, hproblem⟩ := h
  rw [slotWarning?_of_parse_eq_error hslot.keeps hproblem]
  constructor
  · intro h
    cases hrange : document.attributeValueRange? slot selectorAttribute with
    | none =>
      rw [hrange] at h
      contradiction
    | some range =>
      rw [hrange] at h
      obtain rfl := Except.ok.inj h
      exact ⟨_, rfl, selector, problem, range, hslot.keeps, hproblem, hrange, rfl⟩
  · rintro ⟨warning, rfl, selector', problem', range, hkeeps, hproblem', hrange, rfl⟩
    obtain rfl := Option.some.inj (hslot.keeps.symm.trans hkeeps)
    obtain rfl := Except.error.inj (hproblem.symm.trans hproblem')
    rw [hrange]

theorem exists_slotWarning?_eq_error_iff (h : IsProblem document content slot) :
    (∃ error, slotWarning? document slot = .error error) ↔
      document.attributeValueRange? slot selectorAttribute = none := by
  obtain ⟨selector, problem, hslot, hproblem⟩ := h
  rw [slotWarning?_of_parse_eq_error hslot.keeps hproblem]
  cases document.attributeValueRange? slot selectorAttribute <;> simp

/-- Only elements belong to slots. -/
theorem BelongsTo.exists_tagName? {name : String} (h : BelongsTo document content child name) :
    ∃ tag, document.tagName? child = some tag := by
  obtain ⟨slot, -, text, selector, tag, -, -, -, htag, -⟩ := h
  exact ⟨tag, htag⟩

/-- A named slot that takes a node is one whose selector accepts it. -/
theorem takes_iff {name tag : String} (htag : document.tagName? child = some tag) :
    Takes document content child slot name ↔
      (∃ selector, KeepsSelector document content slot selector) ∧
        ∃ named, namedSlot? document slot = some named ∧
          named.selector.accepts tag (document.attribute? child) = true ∧ named.name = name := by
  constructor
  · rintro ⟨text, selector, tag', hslot, hparse, hname, htag', hmatches⟩
    obtain rfl := Option.some.inj (htag.symm.trans htag')
    refine ⟨⟨text, hslot⟩, ⟨name, selector⟩, ?_, Selector.accepts_iff.2 hmatches, rfl⟩
    exact namedSlot?_eq_some_iff.2 ⟨hslot.selectorOf_eq.symm ▸ hparse, hname⟩
  · rintro ⟨⟨text, hslot⟩, named, hnamed, haccepts, rfl⟩
    obtain ⟨hparse, hname⟩ := namedSlot?_eq_some_iff.1 hnamed
    rw [hslot.selectorOf_eq] at hparse
    exact ⟨text, named.selector, tag, hslot, hparse, hname, htag, Selector.accepts_iff.1 haccepts⟩

/-- What a function finds in a list, element by element. -/
theorem forall₂_filter_isSome_iff {α β : Type} {f : α → Option β} {list : List α}
    {found : List β} :
    List.Forall₂ (fun a b => f a = some b) (list.filter fun a => (f a).isSome) found ↔
      list.filterMap f = found := by
  rw [← List.forall₂_map_left_iff (R := fun a b => a = some b),
    ← List.forall₂_map_right_iff (R := (· = ·)), List.forall₂_eq_eq_eq]
  have hmap := List.map_filterMap_some_eq_filter_map_isSome (f := f) (l := list)
  rw [List.filter_map] at hmap
  rw [← (List.map_injective_iff.2 (Option.some_injective β)).eq_iff, hmap]
  rfl

/-- Whether a usage of an element has children that must be moved. -/
def needsFix (document : Document) (content usage : NodeId) : Bool :=
  !(insertions document (namedSlotsIn document content) usage).isEmpty

theorem usageWarning?_eq_ok_none (h : needsFix document content usage = false) :
    usageWarning? document (namedSlotsIn document content) usage = .ok none := by
  rw [needsFix, Bool.not_eq_false'] at h
  rw [usageWarning?]
  exact if_pos h

theorem usageWarning?_of_insertions {tag : String} (htag : document.tagName? usage = some tag)
    (h : insertions document slots usage ≠ []) :
    usageWarning? document slots usage =
      match document.startTagRange? usage with
      | none => .error (noLocation ("<" ++ tag ++ ">") document.url)
      | some range => .ok (some
          { code, message := usageMessage tag, severity := .warning, range,
            fix := some (insertions document slots usage) }) := by
  rw [usageWarning?, htag]
  exact if_neg (mt List.isEmpty_iff.1 h)

/-- All usages of an element are looked at, also if it has no slots. -/
theorem usageWarnings_eq (document : Document) (slots : List NamedSlot) (module : DomModule) :
    usageWarnings document slots module.id? =
      (usagesOf document module).filterMapM (usageWarning? document slots) := by
  rw [usagesOf]
  cases hid : module.id? with
  | none => rfl
  | some element =>
    rw [usageWarnings]
    dsimp only
    split
    · next hslots =>
      -- no usage needs a fix
      have hnone : ∀ usage ∈ document.elementsNamed element, false = false →
          usageWarning? document slots usage = .ok none := by
        intro usage _ _
        have hfix := insertions_nil document usage
        rw [List.isEmpty_iff.1 hslots, usageWarning?]
        exact if_pos (List.isEmpty_iff.2 hfix)
      symm
      rw [Except.filterMapM_eq_ok_iff (R := fun _ _ => False) hnone (by simp)]
      simp
    · rfl

theorem lists_usagesOf (document : Document) (module : NodeId) :
    Lists (fun usage => ∃ element, document.attribute? module "id" = some element ∧
        document.tagName? usage = some element)
      (usagesOf document (definition document module)) := by
  rw [usagesOf, definition]
  cases document.attribute? module "id" with
  | none => exact ⟨.nil, by simp⟩
  | some element => exact (lists_elementsNamed document element).congr (by simp)

theorem Defines.unique {content' : NodeId} (h : Defines document module content)
    (h' : Defines document module content') : content = content' := by
  obtain ⟨template, hleast, hcontent⟩ := h.template
  obtain ⟨template', hleast', hcontent'⟩ := h'.template
  obtain rfl := hleast.unique hleast'
  exact Option.some.inj (hcontent.symm.trans hcontent')

theorem check_eq_map_flatten (document : Document) :
    check document = ((document.queryAll root (document.hasTagName · "dom-module")).mapM
      fun module => moduleWarnings document (definition document module)).map List.flatten := by
  rw [check, domModules_eq_map, List.mapM_map]
  rfl

theorem moduleWarnings_eq_ok_nil
    (h : ((definition document module).content? document).isSome = false) :
    moduleWarnings document (definition document module) = .ok [] := by
  rw [moduleWarnings, Option.isNone_iff_eq_none.1 (Option.isSome_eq_false_iff.1 h)]

section Ordered

variable (hordered : document.Ordered)
include hordered

theorem lists_slotsIn (content : NodeId) :
    Lists (fun slot => ∃ selector, KeepsSelector document content slot selector)
      (slotsIn document content) := by
  refine ((hordered.lists_descendants content).filter _).congr fun slot => ?_
  rw [Bool.and_eq_true, hasTagName, beq_iff_eq, hasAttribute, Option.isSome_iff_exists]
  constructor
  · rintro ⟨hbelow, htag, selector, hkeeps⟩
    exact ⟨selector, hbelow, htag, hkeeps⟩
  · rintro ⟨selector, hbelow, htag, hkeeps⟩
    exact ⟨hbelow, htag, selector, hkeeps⟩

theorem lists_problems (content : NodeId) :
    Lists (IsProblem document content)
      ((slotsIn document content).filter (hasProblem document)) := by
  refine ((lists_slotsIn hordered content).filter _).congr fun slot => ?_
  rw [hasProblem_eq_true_iff]
  constructor
  · rintro ⟨⟨selector, hslot⟩, problem, hproblem⟩
    exact ⟨selector, problem, hslot, hslot.selectorOf_eq ▸ hproblem⟩
  · rintro ⟨selector, problem, hslot, hproblem⟩
    exact ⟨⟨selector, hslot⟩, problem, hslot.selectorOf_eq.symm ▸ hproblem⟩

/-- The problems of a definition are warned of one by one. -/
theorem filterMapM_slotWarning?_eq_ok_iff (content : NodeId) :
    (slotsIn document content).filterMapM (slotWarning? document) = .ok warnings ↔
      ∃ problems, Lists (IsProblem document content) problems ∧
        List.Forall₂ (WarnsOfProblem document) problems warnings :=
  filterMapM_eq_ok_iff_of_lists (lists_problems hordered content)
    (fun _ => slotWarning?_eq_ok_none) fun _ hproblem _ => slotWarning?_eq_ok_iff hproblem

theorem exists_filterMapM_slotWarning?_eq_error_iff (content : NodeId) :
    (∃ error, (slotsIn document content).filterMapM (slotWarning? document) = .error error) ↔
      ∃ slot, IsProblem document content slot ∧
        document.attributeValueRange? slot selectorAttribute = none := by
  rw [exists_filterMapM_eq_error_iff_of_lists (lists_problems hordered content)
    fun _ => slotWarning?_eq_ok_none]
  exact exists_congr fun slot => and_congr_right fun hproblem =>
    exists_slotWarning?_eq_error_iff hproblem

/-! ### The children of a usage -/

/-- The first slot that takes a node is found by going through the slots. -/
theorem find?_slotsIn_eq_some_iff {tag : String} (htag : document.tagName? child = some tag) :
    (slotsIn document content).find? (fun slot => (namedSlot? document slot).any
        fun named => named.selector.accepts tag (document.attribute? child)) = some slot ↔
      IsLeast {slot | ∃ name, Takes document content child slot name} slot := by
  rw [(lists_slotsIn hordered content).find?_eq_some_iff]
  simp only [takes_iff htag, Option.any_eq_true]
  -- a slot that takes the node has a name, whatever that is
  have hset : {slot | (∃ selector, KeepsSelector document content slot selector) ∧
        ∃ named, namedSlot? document slot = some named ∧
          named.selector.accepts tag (document.attribute? child) = true} =
      {slot | ∃ name, (∃ selector, KeepsSelector document content slot selector) ∧
        ∃ named, namedSlot? document slot = some named ∧
          named.selector.accepts tag (document.attribute? child) = true ∧ named.name = name} := by
    ext slot
    simp
  rw [hset]

/-- The slot for a child is the first one that takes it, unless the child names one. -/
theorem slotFor?_map_name_eq_some_iff {name tag : String}
    (htag : document.tagName? child = some tag) :
    (slotFor? document (namedSlotsIn document content) child).map (·.name) = some name ↔
      document.attribute? child "slot" = none ∧ BelongsTo document content child name := by
  rw [slotFor?, hasAttribute, htag, Option.getD_some, namedSlotsIn]
  cases hslot : document.attribute? child "slot" with
  | some value => simp
  | none =>
    -- named slots do not know their nodes, so the search is for the first node that gives one
    simp only [Option.isSome_none, Bool.false_eq_true, if_false, true_and, List.find?_filterMap,
      Option.map_eq_some_iff, Option.bind_eq_some_iff]
    constructor
    · rintro ⟨named, ⟨slot, hfind, hnamed⟩, rfl⟩
      refine ⟨slot, (find?_slotsIn_eq_some_iff hordered htag).1 hfind, (takes_iff htag).2 ?_⟩
      have haccepts := List.find?_some hfind
      rw [hnamed, Option.any_some] at haccepts
      exact ⟨((lists_slotsIn hordered content).mem_iff slot).1 (List.mem_of_find?_eq_some hfind),
        named, hnamed, haccepts, rfl⟩
    · rintro ⟨slot, hleast, htakes⟩
      obtain ⟨-, named, hnamed, -, hname⟩ := (takes_iff htag).1 htakes
      exact ⟨named, ⟨slot, (find?_slotsIn_eq_some_iff hordered htag).2 hleast, hnamed⟩, hname⟩

/-- The insertion that a child needs. -/
theorem insertion?_eq_some_iff {replacement : Replacement} :
    document.isElement child = true ∧
        insertion? document (namedSlotsIn document content) child = some replacement ↔
      document.attribute? child "slot" = none ∧
        IsInsertion document content child replacement := by
  constructor
  · rintro ⟨helement, h⟩
    obtain ⟨tag, htag⟩ := isElement_iff.1 helement
    obtain ⟨named, hnamed, h⟩ := Option.bind_eq_some_iff.1 h
    obtain ⟨span, hspan, rfl⟩ := Option.map_eq_some_iff.1 h
    obtain ⟨hfree, hbelongs⟩ := (slotFor?_map_name_eq_some_iff hordered htag).1
      (by rw [hnamed, Option.map_some])
    exact ⟨hfree, named.name, span, hbelongs, hspan, rfl⟩
  · rintro ⟨hfree, name, span, hbelongs, hspan, rfl⟩
    obtain ⟨tag, htag⟩ := hbelongs.exists_tagName?
    obtain ⟨named, hnamed, rfl⟩ := Option.map_eq_some_iff.1
      ((slotFor?_map_name_eq_some_iff hordered htag).2 ⟨hfree, hbelongs⟩)
    refine ⟨isElement_iff.2 ⟨tag, htag⟩, ?_⟩
    rw [insertion?, hnamed, Option.bind_some, insertAfterTagName?, hspan]
    rfl

theorem lists_moved (content usage : NodeId) :
    Lists (IsMoved document content usage) ((document.childElements usage).filter
      fun child => (insertion? document (namedSlotsIn document content) child).isSome) := by
  refine (((hordered.lists_children usage).filter _).filter _).congr fun child => ?_
  rw [Option.isSome_iff_exists]
  constructor
  · rintro ⟨⟨hparent, helement⟩, replacement, h⟩
    obtain ⟨hfree, name, span, hbelongs, hspan, -⟩ :=
      (insertion?_eq_some_iff hordered).1 ⟨helement, h⟩
    exact ⟨hparent, hfree, ⟨name, hbelongs⟩, ⟨span, hspan⟩⟩
  · rintro ⟨hparent, hfree, ⟨name, hbelongs⟩, ⟨span, hspan⟩⟩
    obtain ⟨helement, h⟩ :=
      (insertion?_eq_some_iff hordered).2 ⟨hfree, name, span, hbelongs, hspan, rfl⟩
    exact ⟨⟨hparent, helement⟩, _, h⟩

/-- The insertions of a usage are those of the children that must be moved, one by one. -/
theorem forall₂_isInsertion_iff (content usage : NodeId) {fix : Edit} {moved : List NodeId}
    (hmoved : Lists (IsMoved document content usage) moved) :
    List.Forall₂ (IsInsertion document content) moved fix ↔
      insertions document (namedSlotsIn document content) usage = fix := by
  have hfree : ∀ child ∈ moved, document.attribute? child "slot" = none :=
    fun child hmem => ((hmoved.mem_iff child).1 hmem).free
  have hlist := lists_moved hordered content usage
  have helement : ∀ child ∈ moved, document.isElement child = true := by
    rw [hmoved.unique hlist]
    exact fun child hmem => (List.mem_filter.1 (List.mem_filter.1 hmem).1).2
  -- of the listed children both conditions hold, so one may stand for the other
  calc List.Forall₂ (IsInsertion document content) moved fix
    _ ↔ List.Forall₂ (fun child replacement => document.isElement child = true ∧
          insertion? document (namedSlotsIn document content) child = some replacement)
          moved fix := by
        simp only [insertion?_eq_some_iff hordered]
        rw [List.forall₂_and_left, and_iff_right hfree]
    _ ↔ List.Forall₂ (fun child replacement =>
          insertion? document (namedSlotsIn document content) child = some replacement)
          moved fix := by
        rw [List.forall₂_and_left, and_iff_right helement]
    _ ↔ insertions document (namedSlotsIn document content) usage = fix := by
        rw [hmoved.unique hlist, forall₂_filter_isSome_iff]
        rfl

theorem insertions_ne_nil_iff (content usage : NodeId) :
    insertions document (namedSlotsIn document content) usage ≠ [] ↔
      ∃ child, IsMoved document content usage child := by
  have hlist := lists_moved hordered content usage
  -- there are as many insertions as children to move
  have hlength := ((forall₂_isInsertion_iff hordered content usage hlist).2 rfl).length_eq
  rw [← List.length_pos_iff, ← hlength, List.length_pos_iff_exists_mem]
  exact exists_congr hlist.mem_iff

/-! ### The usages of a definition -/

theorem needsFix_eq_true_iff (content usage : NodeId) :
    needsFix document content usage = true ↔ ∃ child, IsMoved document content usage child := by
  rw [needsFix, Bool.not_eq_true', List.isEmpty_eq_false_iff, insertions_ne_nil_iff hordered]

/-- A usage that needs a fix is warned of at its start tag. -/
theorem usageWarning?_eq_ok_iff {found : Option Warning}
    (h : IsUsage document module content usage) :
    usageWarning? document (namedSlotsIn document content) usage = .ok found ↔
      ∃ warning, found = some warning ∧ WarnsOfUsage document content usage warning := by
  obtain ⟨tag, -, htag⟩ := h.tag
  rw [usageWarning?_of_insertions htag ((insertions_ne_nil_iff hordered content usage).2 h.moved)]
  have hlist := lists_moved hordered content usage
  constructor
  · intro h
    cases hrange : document.startTagRange? usage with
    | none =>
      rw [hrange] at h
      contradiction
    | some range =>
      rw [hrange] at h
      obtain rfl := Except.ok.inj h
      exact ⟨_, rfl, tag, range, _, _, htag, hrange, hlist,
        (forall₂_isInsertion_iff hordered content usage hlist).2 rfl, rfl⟩
  · rintro ⟨warning, rfl, tag', range, moved, fix, htag', hrange, hmoved, hfix, rfl⟩
    obtain rfl := Option.some.inj (htag.symm.trans htag')
    obtain rfl := (forall₂_isInsertion_iff hordered content usage hmoved).1 hfix
    rw [hrange]

theorem exists_usageWarning?_eq_error_iff (h : IsUsage document module content usage) :
    (∃ error, usageWarning? document (namedSlotsIn document content) usage = .error error) ↔
      document.startTagRange? usage = none := by
  obtain ⟨tag, -, htag⟩ := h.tag
  rw [usageWarning?_of_insertions htag ((insertions_ne_nil_iff hordered content usage).2 h.moved)]
  cases document.startTagRange? usage <;> simp

theorem lists_usages (module content : NodeId) :
    Lists (IsUsage document module content)
      ((usagesOf document (definition document module)).filter (needsFix document content)) := by
  refine ((lists_usagesOf document module).filter _).congr fun usage => ?_
  rw [needsFix_eq_true_iff hordered]
  exact ⟨fun ⟨htag, hmoved⟩ => ⟨htag, hmoved⟩, fun ⟨htag, hmoved⟩ => ⟨htag, hmoved⟩⟩

/-- The usages of a definition are warned of one by one. -/
theorem usageWarnings_eq_ok_iff (module content : NodeId) :
    usageWarnings document (namedSlotsIn document content) (definition document module).id? =
        .ok warnings ↔
      ∃ usages, Lists (IsUsage document module content) usages ∧
        List.Forall₂ (WarnsOfUsage document content) usages warnings := by
  rw [usageWarnings_eq]
  exact filterMapM_eq_ok_iff_of_lists (lists_usages hordered module content)
    (fun _ => usageWarning?_eq_ok_none) fun _ husage _ => usageWarning?_eq_ok_iff hordered husage

theorem exists_usageWarnings_eq_error_iff (module content : NodeId) :
    (∃ error, usageWarnings document (namedSlotsIn document content)
        (definition document module).id? = .error error) ↔
      ∃ usage, IsUsage document module content usage ∧ document.startTagRange? usage = none := by
  rw [usageWarnings_eq,
    exists_filterMapM_eq_error_iff_of_lists (lists_usages hordered module content)
      fun _ => usageWarning?_eq_ok_none]
  exact exists_congr fun usage => and_congr_right fun husage =>
    exists_usageWarning?_eq_error_iff hordered husage

/-! ### The definitions of a document -/

/-- A definition is a `<dom-module>` whose first template has content. -/
theorem content?_eq_some_iff (module content : NodeId) :
    (definition document module).content? document = some content ↔
      ∃ template, IsLeast
          {id | document.Below module id ∧ document.tagName? id = some "template"} template ∧
        document.templateContent? template = some content := by
  simp only [DomModule.content?, Option.bind_eq_some_iff, hordered.template?_eq_some_iff]

theorem lists_defines :
    Lists (fun module => ∃ content, Defines document module content)
      ((document.queryAll root (document.hasTagName · "dom-module")).filter
        fun module => ((definition document module).content? document).isSome) := by
  refine (hordered.lists_domModules.filter _).congr fun module => ?_
  simp only [Option.isSome_iff_exists, content?_eq_some_iff hordered]
  constructor
  · rintro ⟨⟨hbelow, htag⟩, content, htemplate⟩
    exact ⟨content, hbelow, htag, htemplate⟩
  · rintro ⟨content, hbelow, htag, htemplate⟩
    exact ⟨⟨hbelow, htag⟩, content, htemplate⟩

theorem moduleWarnings_eq (h : Defines document module content) :
    moduleWarnings document (definition document module) =
      (do return (← (slotsIn document content).filterMapM (slotWarning? document)) ++
        (← usageWarnings document (namedSlotsIn document content)
          (definition document module).id?)) := by
  rw [moduleWarnings, (content?_eq_some_iff hordered module content).2 h.template]
  rfl

/-- The warnings about a definition. -/
theorem moduleWarnings_eq_ok_iff (h : Defines document module content) :
    moduleWarnings document (definition document module) = .ok warnings ↔
      Warns document module warnings := by
  rw [moduleWarnings_eq hordered h, Except.append_eq_ok_iff]
  simp only [filterMapM_slotWarning?_eq_ok_iff hordered, usageWarnings_eq_ok_iff hordered]
  constructor
  · rintro ⟨front, back, ⟨problems, hproblems, hfront⟩, ⟨usages, husages, hback⟩, rfl⟩
    exact ⟨content, problems, front, usages, back, h, hproblems, hfront, husages, hback, rfl⟩
  · rintro ⟨content', problems, front, usages, back, h', hproblems, hfront, husages, hback, rfl⟩
    obtain rfl := h.unique h'
    exact ⟨front, back, ⟨problems, hproblems, hfront⟩, ⟨usages, husages, hback⟩, rfl⟩

theorem exists_moduleWarnings_eq_error_iff (h : Defines document module content) :
    (∃ error, moduleWarnings document (definition document module) = .error error) ↔
      (∃ slot, IsProblem document content slot ∧
        document.attributeValueRange? slot selectorAttribute = none) ∨
      ∃ usage, IsUsage document module content usage ∧ document.startTagRange? usage = none := by
  rw [moduleWarnings_eq hordered h, Except.exists_append_eq_error_iff,
    exists_filterMapM_slotWarning?_eq_error_iff hordered,
    exists_usageWarnings_eq_error_iff hordered]

theorem check_eq_ok_iff : check document = .ok warnings ↔ Specified document warnings := by
  have hlist := lists_defines hordered
  have hdefines {module : NodeId}
      (hmem : module ∈ document.queryAll root (document.hasTagName · "dom-module"))
      (hcontent : ((definition document module).content? document).isSome = true) :
      ∃ content, Defines document module content :=
    (hlist.mem_iff module).1 (List.mem_filter.2 ⟨hmem, hcontent⟩)
  -- a `<dom-module>` without content is no definition, and nothing is said of it
  rw [check_eq_map_flatten, Except.flatten_mapM_eq_ok_iff (R := Warns document)
    (fun _ _ => moduleWarnings_eq_ok_nil) fun module hmem hcontent found =>
      (hdefines hmem hcontent).elim fun content h => moduleWarnings_eq_ok_iff hordered h]
  constructor
  · rintro ⟨answers, hanswers, rfl⟩
    exact ⟨_, answers, hlist, hanswers, rfl⟩
  · rintro ⟨modules, answers, hmodules, hanswers, rfl⟩
    rw [hmodules.unique hlist] at hanswers
    exact ⟨answers, hanswers, rfl⟩

theorem exists_check_eq_error_iff :
    (∃ error, check document = .error error) ↔ Unplaced document := by
  have hlist := lists_defines hordered
  rw [check_eq_map_flatten, Except.exists_map_eq_error_iff, Except.exists_mapM_eq_error_iff]
  constructor
  · rintro ⟨module, hmem, error, herror⟩
    cases hcontent : ((definition document module).content? document).isSome with
    | false =>
      rw [moduleWarnings_eq_ok_nil hcontent] at herror
      contradiction
    | true =>
      obtain ⟨content, h⟩ := (hlist.mem_iff module).1 (List.mem_filter.2 ⟨hmem, hcontent⟩)
      exact ⟨module, content, h, (exists_moduleWarnings_eq_error_iff hordered h).1 ⟨error, herror⟩⟩
  · rintro ⟨module, content, h, hunplaced⟩
    exact ⟨module, (List.mem_filter.1 ((hlist.mem_iff module).2 ⟨content, h⟩)).1,
      (exists_moduleWarnings_eq_error_iff hordered h).2 hunplaced⟩

end Ordered

/-- The rule warns of what a parsed document asks for, and of nothing else. It fails if one of these
warnings has no place in the text, and only then. -/
theorem check_parse_iff (url contents : String) :
    (∀ warnings, check (parse url contents) = .ok warnings ↔
      Specified (parse url contents) warnings) ∧
    ((∃ error, check (parse url contents) = .error error) ↔ Unplaced (parse url contents)) :=
  ⟨fun _ => check_eq_ok_iff (ordered_parse url contents),
    exists_check_eq_error_iff (ordered_parse url contents)⟩

end ElementLint.ContentToSlotUsages
