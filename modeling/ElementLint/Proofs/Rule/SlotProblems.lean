import ElementLint.Proofs.Document.Ancestors
import ElementLint.Proofs.Rule.SlotSpecification

/-!
# How often the selector of a slot is reported

A selector that cannot be used is reported once for each definition whose content its slot belongs
to (`ContentToSlotUsages.count_problemRanges`). Slots in the content of different templates have
different selectors in the text, but two definitions have one template if one of them stands inside
of the other, before any template of the outer one. So no selector is reported twice if and only if
no such pair of definitions has a slot with an unusable selector.
-/

namespace ElementLint.ContentToSlotUsages

open Document

variable {document : Document} {module module' outer inner content slot : NodeId}
  {range : SourceRange} {slots modules : List NodeId} {warnings : List Warning}
  {answers : List (List Warning)}

/-- The ranges of the warnings about selectors. These are the warnings without a fix. -/
def problemRanges (warnings : List Warning) : List SourceRange :=
  (warnings.filter (·.fix.isNone)).map (·.range)

/-- A definition whose content has a slot with an unusable selector at the given range. -/
def Reports (document : Document) (range : SourceRange) (module : NodeId) : Prop :=
  ∃ content slot, Defines document module content ∧ IsProblem document content slot ∧
    document.attributeValueRange? slot selectorAttribute = some range

theorem problemRanges_append (warnings more : List Warning) :
    problemRanges (warnings ++ more) = problemRanges warnings ++ problemRanges more := by
  rw [problemRanges, List.filter_append, List.map_append]
  rfl

/-! ### The warnings about one definition -/

theorem problemRanges_eq_filterMap
    (h : List.Forall₂ (WarnsOfProblem document) slots warnings) :
    problemRanges warnings =
      slots.filterMap (document.attributeValueRange? · selectorAttribute) := by
  induction h with
  | nil => rfl
  | cons hwarning _ ih =>
    obtain ⟨selector, problem, range, -, -, hrange, rfl⟩ := hwarning
    simp only [List.filterMap_cons, hrange, ← ih]
    rfl

theorem problemRanges_eq_nil (h : List.Forall₂ (WarnsOfUsage document content) slots warnings) :
    problemRanges warnings = [] := by
  induction h with
  | nil => rfl
  | cons hwarning _ ih =>
    obtain ⟨tag, range, children, fix, -, -, -, -, rfl⟩ := hwarning
    exact ih

/-- The ranges that are reported about a definition are those of its slots. -/
theorem Warns.exists_problemRanges_eq (h : Warns document module warnings) :
    ∃ content problems, Defines document module content ∧
      Lists (IsProblem document content) problems ∧
      problemRanges warnings =
        problems.filterMap (document.attributeValueRange? · selectorAttribute) := by
  obtain ⟨content, problems, problemWarnings, usages, usageWarnings, hdefines, hlist, hproblems,
    -, husages, rfl⟩ := h
  refine ⟨content, problems, hdefines, hlist, ?_⟩
  rw [problemRanges_append, problemRanges_eq_nil husages, List.append_nil,
    problemRanges_eq_filterMap hproblems]

theorem Warns.mem_problemRanges_iff (h : Warns document module warnings) :
    range ∈ problemRanges warnings ↔ Reports document range module := by
  obtain ⟨content, problems, hdefines, hlist, heq⟩ := h.exists_problemRanges_eq
  rw [heq, List.mem_filterMap]
  constructor
  · rintro ⟨slot, hslot, hrange⟩
    exact ⟨content, slot, hdefines, (hlist.mem_iff slot).1 hslot, hrange⟩
  · rintro ⟨content', slot, hdefines', hslot, hrange⟩
    obtain rfl := hdefines.unique hdefines'
    exact ⟨slot, (hlist.mem_iff slot).2 hslot, hrange⟩

theorem IsProblem.isElement (h : IsProblem document content slot) :
    document.isElement slot = true := by
  obtain ⟨selector, problem, hslot, -⟩ := h
  exact isElement_iff.2 ⟨_, hslot.tag⟩

theorem IsProblem.below (h : IsProblem document content slot) : document.Below content slot := by
  obtain ⟨selector, problem, hslot, -⟩ := h
  exact hslot.below

section WellPlaced

variable (hplaced : document.WellPlaced)
include hplaced

/-- A definition reports no range twice. -/
theorem Warns.nodup_problemRanges (h : Warns document module warnings) :
    (problemRanges warnings).Nodup := by
  obtain ⟨content, problems, -, hlist, heq⟩ := h.exists_problemRanges_eq
  have helements : ∀ slot ∈ problems, document.isElement slot = true :=
    fun slot hslot => ((hlist.mem_iff slot).1 hslot).isElement
  -- the slots are listed in their order, and so their values stand in the text
  have hincreasing : (problemRanges warnings).Pairwise
      (fun range later => range.offsets.start < later.offsets.start) := by
    rw [heq, List.pairwise_filterMap]
    refine hlist.increasing.imp_of_mem ?_
    intro slot later hslot hlater hlt range hrange laterRange hlaterRange
    exact hplaced.attributeValueRange?_lt hlt (helements slot hslot) (helements later hlater)
      hrange hlaterRange
  refine hincreasing.imp fun hlt heq => ?_
  rw [heq] at hlt
  exact Nat.lt_irrefl _ hlt

open Classical in
/-- Each definition adds one to the number of reports of the ranges that it reports. -/
theorem count_problemRanges_flatten (range : SourceRange)
    (h : List.Forall₂ (Warns document) modules answers) :
    (problemRanges answers.flatten).count range =
      modules.countP fun module => decide (Reports document range module) := by
  induction h with
  | nil => rfl
  | cons hmodule _ ih =>
    -- without repetitions the count for one definition is one or zero
    rw [List.flatten_cons, problemRanges_append, List.count_append, ih, List.countP_cons,
      Nat.add_comm, (hmodule.nodup_problemRanges hplaced).count]
    simp only [hmodule.mem_problemRanges_iff, decide_eq_true_eq]

/-! ### The definitions that report a range -/

/-- The slot of a reported range is known, and so is the content that it stands in. -/
theorem Reports.exists_content (h : Reports document range module)
    (h' : Reports document range module') :
    ∃ content, Defines document module content ∧ Defines document module' content := by
  obtain ⟨content, slot, hdefines, hslot, hrange⟩ := h
  obtain ⟨content', slot', hdefines', hslot', hrange'⟩ := h'
  obtain rfl := hplaced.eq_of_attributeValueRange? hslot.isElement hslot'.isElement hrange hrange'
  -- one slot stands below both contents
  obtain ⟨template, -, htemplate⟩ := hdefines.template
  obtain ⟨template', -, htemplate'⟩ := hdefines'.template
  obtain rfl := hplaced.isTree.content_unique htemplate htemplate' hslot.below hslot'.below
  exact ⟨content, hdefines, hdefines'⟩

omit hplaced in
/-- Of two definitions with the same content one stands inside of the other. -/
theorem Defines.eq_or_below (htree : document.IsTree) (h : Defines document module content)
    (h' : Defines document module' content) :
    module = module' ∨ document.Below module module' ∨ document.Below module' module := by
  obtain ⟨template, hleast, htemplate⟩ := h.template
  obtain ⟨template', hleast', htemplate'⟩ := h'.template
  obtain rfl := htree.template_unique htemplate htemplate'
  exact htree.below_or_below hleast.1.1 hleast'.1.1

/-- Of two definitions that report a range the first one stands around the other, and both have the
same content. -/
theorem Reports.below (hlt : outer < inner) (houter : Reports document range outer)
    (hinner : Reports document range inner) :
    document.Below outer inner ∧
      ∃ content, Defines document outer content ∧ Defines document inner content := by
  obtain ⟨content, hdefines, hdefines'⟩ := houter.exists_content hplaced hinner
  refine ⟨?_, content, hdefines, hdefines'⟩
  rcases hdefines.eq_or_below hplaced.isTree hdefines' with rfl | hbelow | hbelow
  · exact absurd hlt (Nat.lt_irrefl _)
  · exact hbelow
  · exact absurd (hplaced.isTree.lt_of_below hbelow) (Nat.lt_asymm hlt)

section Ordered

variable (hordered : document.Ordered) (h : check document = .ok warnings)
include hordered h

omit hplaced in
/-- A slot of a document that has warnings has a selector with a place in the text. -/
theorem IsProblem.exists_range (hdefines : Defines document module content)
    (hslot : IsProblem document content slot) :
    ∃ range, document.attributeValueRange? slot selectorAttribute = some range := by
  rw [← Option.ne_none_iff_exists']
  intro hnone
  obtain ⟨error, herror⟩ := (exists_check_eq_error_iff hordered).2
    ⟨module, content, hdefines, .inl ⟨slot, hslot, hnone⟩⟩
  rw [h] at herror
  contradiction

/-- There are as many reports of a range as definitions that report it. -/
theorem exists_count_problemRanges_eq (range : SourceRange) :
    ∃ modules, Lists (Reports document range) modules ∧
      (problemRanges warnings).count range = modules.length := by
  classical
  obtain ⟨modules, answers, hmodules, hanswers, rfl⟩ := (check_eq_ok_iff hordered).1 h
  refine ⟨modules.filter (fun module => decide (Reports document range module)),
    (hmodules.filter _).congr fun module => ?_, ?_⟩
  · rw [decide_eq_true_eq, and_iff_right_iff_imp]
    rintro ⟨content, slot, hdefines, -⟩
    exact ⟨content, hdefines⟩
  · rw [count_problemRanges_flatten hplaced range hanswers, List.countP_eq_length_filter]

theorem nodup_problemRanges_iff :
    (problemRanges warnings).Nodup ↔
      ∀ range outer inner, Reports document range outer → Reports document range inner →
        outer = inner := by
  rw [List.nodup_iff_count_le_one]
  refine forall_congr' fun range => ?_
  obtain ⟨modules, hmodules, hlength⟩ := exists_count_problemRanges_eq hplaced hordered h range
  rw [hlength, hmodules.length_le_one_iff]

/-- No range is reported by two definitions if and only if no definition inside of another one has
the same content with a problem in it. -/
theorem reports_unique_iff :
    (∀ range outer inner, Reports document range outer → Reports document range inner →
        outer = inner) ↔
      ∀ outer inner content, document.Below outer inner → Defines document outer content →
        Defines document inner content → ∀ slot, ¬ IsProblem document content slot := by
  constructor
  · intro hunique outer inner content hbelow houter hinner slot hslot
    obtain ⟨range, hrange⟩ := hslot.exists_range hordered h houter
    have heq := hunique range outer inner ⟨content, slot, houter, hslot, hrange⟩
      ⟨content, slot, hinner, hslot, hrange⟩
    exact Nat.ne_of_lt (hplaced.isTree.lt_of_below hbelow) heq
  · intro hnone range
    -- the definition with the smaller number would stand around the other one
    have hle : ∀ outer inner, Reports document range outer → Reports document range inner →
        inner ≤ outer := by
      intro outer inner houter hinner
      by_contra hlt
      obtain ⟨hbelow, content, hdefines, hdefines'⟩ :=
        houter.below hplaced (Nat.not_le.1 hlt) hinner
      obtain ⟨content', slot, hdefines'', hslot, -⟩ := houter
      obtain rfl := hdefines.unique hdefines''
      exact hnone outer inner content hbelow hdefines hdefines' slot hslot
    exact fun outer inner houter hinner =>
      Nat.le_antisymm (hle inner outer hinner houter) (hle outer inner houter hinner)

end Ordered

end WellPlaced

/-- A range is reported once for each definition with a slot whose unusable selector stands there.
Such definitions have the same content, and one stands inside of the other. So no range is reported
twice if and only if no definition inside of another one has the same content with such a slot. -/
theorem count_problemRanges (url contents : String)
    (h : check (parse url contents) = .ok warnings) :
    let document := parse url contents
    (∀ range, ∃ modules, Lists (Reports document range) modules ∧
      (problemRanges warnings).count range = modules.length) ∧
    (∀ range outer inner, outer < inner → Reports document range outer →
      Reports document range inner → document.Below outer inner ∧
        ∃ content, Defines document outer content ∧ Defines document inner content) ∧
    ((problemRanges warnings).Nodup ↔
      ∀ outer inner content, document.Below outer inner → Defines document outer content →
        Defines document inner content → ∀ slot, ¬ IsProblem document content slot) := by
  intro document
  have hplaced : document.WellPlaced := wellPlaced_parse url contents
  have hordered : document.Ordered := ordered_parse url contents
  refine ⟨exists_count_problemRanges_eq hplaced hordered h, ?_, ?_⟩
  · intro range outer inner hlt houter hinner
    exact houter.below hplaced hlt hinner
  · rw [nodup_problemRanges_iff hplaced hordered h, reports_unique_iff hplaced hordered h]

/-- A definition inside of another one, behind the template of that one, has a template of its own.
-/
theorem count_problemRanges_behind :
    let document := parse "a" ("<dom-module><template><slot old-content-selector=!></template>" ++
      "<dom-module><template><slot old-content-selector=?>")
    ∃ warnings, check document = .ok warnings ∧
      (problemRanges warnings).map (·.offsets) = [⟨49, 50⟩, ⟨111, 112⟩] ∧
      ∀ outer inner content, document.Below outer inner → Defines document outer content →
        Defines document inner content → ∀ slot, ¬ IsProblem document content slot := by
  intro document
  have hcheck : (check document).map (fun warnings => (problemRanges warnings).map (·.offsets)) =
      .ok [⟨49, 50⟩, ⟨111, 112⟩] := by
    decide +kernel
  obtain ⟨warnings, hwarnings, hoffsets⟩ := Except.exists_of_map_eq_ok hcheck
  obtain ⟨-, -, hnodup⟩ := count_problemRanges _ _ hwarnings
  refine ⟨warnings, hwarnings, hoffsets, hnodup.1 (List.Nodup.of_map (·.offsets) ?_)⟩
  rw [hoffsets]
  decide

/-- A definition inside of another one, before any template of that one, shares its template. -/
theorem count_problemRanges_before :
    let document := parse "a" ("<dom-module><dom-module><template>" ++
      "<slot old-content-selector=\"!\"></slot></template></dom-module></dom-module>")
    ∃ warnings, check document = .ok warnings ∧
      (problemRanges warnings).map (·.offsets) = [⟨61, 64⟩, ⟨61, 64⟩] ∧
      ¬ (problemRanges warnings).Nodup := by
  intro document
  have hcheck : (check document).map (fun warnings => ((problemRanges warnings).map (·.offsets),
      decide (problemRanges warnings).Nodup)) = .ok ([⟨61, 64⟩, ⟨61, 64⟩], false) := by
    decide +kernel
  obtain ⟨warnings, hwarnings, hanswer⟩ := Except.exists_of_map_eq_ok hcheck
  obtain ⟨hoffsets, hnodup⟩ := Prod.mk.inj hanswer
  exact ⟨warnings, hwarnings, hoffsets, of_decide_eq_false hnodup⟩

end ElementLint.ContentToSlotUsages
