import ElementLint.Proofs.Document.Descent
import ElementLint.Proofs.Edits.Apply
import ElementLint.Proofs.Rule.Places

/-!
# The insertions of slot attributes

The fixes that `ContentToSlotUsages.check` asks for are those of the usages of every definition
(`rangeAndFix?_of_check_eq_ok`). Each inserts into the children of one usage. Children come after
their parents in the text, and no two usages share a child, so the insertions of a document keep
clear of each other as long as no two definitions have one name, and all fixes can be applied
together (`applyEditsIn_fixes`).
-/

namespace ElementLint.ContentToSlotUsages

variable {document : Document} {slots : List NamedSlot} {module : DomModule}
  {usage child : NodeId} {warnings : List Warning} {fix : Edit}

/-! ### The fixes of a document -/

/-- The range of a warning together with its fix. -/
def rangeAndFix? (warning : Warning) : Option (SourceRange × Edit) :=
  warning.fix.map fun fix => (warning.range, fix)

/-- The insertions that the children of a usage need. -/
def insertions (document : Document) (slots : List NamedSlot) (usage : NodeId) : Edit :=
  (document.childElements usage).filterMap (insertion? document slots)

/-- The start tag of a usage and the fix that it needs, if any. -/
def usageFix? (document : Document) (slots : List NamedSlot) (usage : NodeId) :
    Option (SourceRange × Edit) :=
  if (insertions document slots usage).isEmpty then none
  else (document.startTagRange? usage).map fun range => (range, insertions document slots usage)

/-- The slots of a definition that content can be moved to. -/
def slotsOf (document : Document) (module : DomModule) : List NamedSlot :=
  match module.content? document with
  | none => []
  | some content => (slotsIn document content).filterMap (namedSlot? document)

/-- The usages of the element of a definition. -/
def usagesOf (document : Document) (module : DomModule) : List NodeId :=
  match module.id? with
  | none => []
  | some element => document.elementsNamed element

/-- The fixes that a definition asks for. -/
def fixesOf (document : Document) (module : DomModule) : List (SourceRange × Edit) :=
  (usagesOf document module).filterMap (usageFix? document (slotsOf document module))

/-- Without slots no child needs an insertion, and no usage a fix. -/
theorem insertions_nil (document : Document) (usage : NodeId) :
    insertions document [] usage = [] := by
  have hinsertion : insertion? document [] = fun _ => none := by
    funext child
    rw [insertion?, slotFor?, List.find?_nil, ite_self, Option.bind_none]
  rw [insertions, hinsertion, List.filterMap_none]

theorem filterMap_usageFix?_nil (document : Document) (usages : List NodeId) :
    usages.filterMap (usageFix? document []) = [] := by
  refine List.filterMap_eq_nil_iff.2 fun usage _ => ?_
  rw [usageFix?, insertions_nil]
  rfl

theorem rangeAndFix?_of_slotWarning?_eq_ok {slot : NodeId} {found : Option Warning}
    (h : slotWarning? document slot = .ok found) : found.bind rangeAndFix? = none := by
  unfold slotWarning? at h
  split at h
  · obtain rfl := Except.ok.inj h
    rfl
  · split at h
    · contradiction
    · obtain rfl := Except.ok.inj h
      rfl

theorem rangeAndFix?_of_usageWarning?_eq_ok {found : Option Warning}
    (h : usageWarning? document slots usage = .ok found) :
    found.bind rangeAndFix? = usageFix? document slots usage := by
  unfold usageWarning? at h
  dsimp only at h
  rw [usageFix?, insertions]
  split at h
  · next hempty =>
    obtain rfl := Except.ok.inj h
    rw [if_pos hempty]
    rfl
  · next hne =>
    split at h
    · contradiction
    · next range hrange =>
      obtain rfl := Except.ok.inj h
      rw [if_neg hne, hrange]
      rfl

theorem rangeAndFix?_of_usageWarnings_eq_ok
    (h : usageWarnings document slots module.id? = .ok warnings) :
    warnings.filterMap rangeAndFix? =
      (usagesOf document module).filterMap (usageFix? document slots) := by
  rw [usagesOf]
  cases hid : module.id? with
  | none =>
    rw [hid] at h
    obtain rfl := Except.ok.inj h
    rfl
  | some element =>
    rw [hid, usageWarnings] at h
    dsimp only at h ⊢
    split at h
    · next hslots =>
      obtain rfl := Except.ok.inj h
      rw [List.isEmpty_iff.1 hslots, filterMap_usageFix?_nil]
      rfl
    · exact Except.filterMap_eq_of_filterMapM_eq_ok h fun usage found hfound =>
        rangeAndFix?_of_usageWarning?_eq_ok hfound

theorem rangeAndFix?_of_moduleWarnings_eq_ok
    (h : moduleWarnings document module = .ok warnings) :
    warnings.filterMap rangeAndFix? = fixesOf document module := by
  unfold moduleWarnings at h
  rw [fixesOf, slotsOf]
  cases hcontent : module.content? document with
  | none =>
    rw [hcontent] at h
    obtain rfl := Except.ok.inj h
    rw [filterMap_usageFix?_nil]
    rfl
  | some content =>
    rw [hcontent] at h
    obtain ⟨problems, hproblems, h⟩ := Except.bind_eq_ok h
    obtain ⟨usages, husages, h⟩ := Except.bind_eq_ok h
    obtain rfl : problems ++ usages = warnings := Except.ok.inj h
    have hnofix : problems.filterMap rangeAndFix? = _ :=
      Except.filterMap_eq_of_filterMapM_eq_ok hproblems fun slot found hfound =>
        rangeAndFix?_of_slotWarning?_eq_ok hfound
    rw [List.filterMap_append, hnofix, List.filterMap_none, List.nil_append,
      rangeAndFix?_of_usageWarnings_eq_ok husages]

/-- The fixes of a document are those that its definitions ask for. -/
theorem rangeAndFix?_of_check_eq_ok (h : check document = .ok warnings) :
    warnings.filterMap rangeAndFix? = document.domModules.flatMap (fixesOf document) := by
  unfold check at h
  cases hmodules : document.domModules.mapM (moduleWarnings document) with
  | error error =>
    rw [hmodules] at h
    contradiction
  | ok found =>
    rw [hmodules] at h
    obtain rfl : found.flatten = warnings := Except.ok.inj h
    have hfixes := Except.map_eq_of_mapM_eq_ok hmodules fun module answer hanswer =>
      rangeAndFix?_of_moduleWarnings_eq_ok hanswer
    rw [List.filterMap_flatten, hfixes, List.flatMap_def]

/-! ### The places of the insertions -/

/-- An insertion puts the attribute for one of the slots right after the tag name of the child. -/
theorem exists_of_insertion?_eq_some {replacement : Replacement}
    (h : insertion? document slots child = some replacement) :
    ∃ span, document.span? child = some span ∧
      replacement.range.offsets = ⟨span.nameEnd, span.nameEnd⟩ ∧
      ∃ slot ∈ slots, replacement.text = slotAttribute slot := by
  obtain ⟨slot, hslot, h⟩ := Option.bind_eq_some_iff.1 h
  obtain ⟨span, hspan, rfl⟩ := Option.map_eq_some_iff.1 h
  refine ⟨span, hspan, rfl, slot, ?_, rfl⟩
  rw [slotFor?] at hslot
  split at hslot
  · contradiction
  · exact List.mem_of_find?_eq_some hslot

/-- A usage that needs a fix. -/
theorem eq_of_usageFix?_eq_some {range : SourceRange}
    (h : usageFix? document slots usage = some (range, fix)) :
    document.startTagRange? usage = some range ∧ fix = insertions document slots usage := by
  rw [usageFix?] at h
  split at h
  · contradiction
  · obtain ⟨range', hrange, heq⟩ := Option.map_eq_some_iff.1 h
    obtain ⟨rfl, rfl⟩ := Prod.mk.inj heq
    exact ⟨hrange, rfl⟩

theorem exists_of_mem_usagesOf (h : usage ∈ usagesOf document module) :
    ∃ element, module.id? = some element ∧ document.tagName? usage = some element := by
  rw [usagesOf] at h
  split at h
  · contradiction
  · next element hid =>
    exact ⟨element, hid, ((document.lists_elementsNamed element).mem_iff usage).1 h⟩

theorem isElement_of_mem_usagesOf (h : usage ∈ usagesOf document module) :
    document.isElement usage = true := by
  obtain ⟨element, -, htag⟩ := exists_of_mem_usagesOf h
  exact Document.isElement_iff.2 ⟨element, htag⟩

section WellPlaced

variable (hplaced : document.WellPlaced)
include hplaced

theorem start_lt_of_insertion? {later : NodeId} {moreSlots : List NamedSlot}
    {replacement laterReplacement : Replacement} (hlt : child < later)
    (hchild : document.isElement child = true) (hlater : document.isElement later = true)
    (h : insertion? document slots child = some replacement)
    (hl : insertion? document moreSlots later = some laterReplacement) :
    replacement.range.offsets.start < laterReplacement.range.offsets.start := by
  obtain ⟨span, hspan, hoffsets, -⟩ := exists_of_insertion?_eq_some h
  obtain ⟨laterSpan, hlaterSpan, hlaterOffsets, -⟩ := exists_of_insertion?_eq_some hl
  rw [hoffsets, hlaterOffsets]
  have hstands := hplaced.spansStand span (Document.mem_spans_of_span?_eq_some hspan)
  exact hstands.nameEnd_le_startTagEnd.trans_lt
    (hplaced.startTagEnd_lt_nameEnd hlt hchild hlater hspan hlaterSpan)

/-- The insertions into the children of a usage go further and further to the end of the text. -/
theorem pairwise_insertions (slots : List NamedSlot) (usage : NodeId) :
    (insertions document slots usage).Pairwise
      (fun a b => a.range.offsets.start < b.range.offsets.start) := by
  rw [insertions, List.pairwise_filterMap]
  have hchildren := (hplaced.isTree.pairwise_children usage).filter document.isElement
  refine List.Pairwise.imp_of_mem ?_ hchildren
  intro child later hchild hlater hlt replacement h laterReplacement hl
  exact start_lt_of_insertion? hplaced hlt (List.mem_filter.1 hchild).2
    (List.mem_filter.1 hlater).2 h hl

/-- The insertions into the children of a usage stand behind its start tag. -/
theorem stop_lt_of_mem_insertions {range : SourceRange} {replacement : Replacement}
    (husage : document.isElement usage = true)
    (hrange : document.startTagRange? usage = some range)
    (hmem : replacement ∈ insertions document slots usage) :
    range.offsets.stop < replacement.range.offsets.start := by
  obtain ⟨child, hchild, h⟩ := List.mem_filterMap.1 hmem
  obtain ⟨hchild, helement⟩ := List.mem_filter.1 hchild
  obtain ⟨span, hspan, hoffsets, -⟩ := exists_of_insertion?_eq_some h
  obtain ⟨usageSpan, husageSpan, rfl⟩ := Option.map_eq_some_iff.1 hrange
  rw [hoffsets]
  exact hplaced.startTagEnd_lt_nameEnd (hplaced.isTree.lt_of_mem_children hchild) husage helement
    husageSpan hspan

/-- Different usages have different children, so their insertions go to different places. -/
theorem start_ne_of_usage_ne {other : NodeId} {moreSlots : List NamedSlot}
    {replacement otherReplacement : Replacement} (hne : usage ≠ other)
    (hmem : replacement ∈ insertions document slots usage)
    (hother : otherReplacement ∈ insertions document moreSlots other) :
    replacement.range.offsets.start ≠ otherReplacement.range.offsets.start := by
  obtain ⟨child, hchild, h⟩ := List.mem_filterMap.1 hmem
  obtain ⟨hchild, helement⟩ := List.mem_filter.1 hchild
  obtain ⟨otherChild, hotherChild, ho⟩ := List.mem_filterMap.1 hother
  obtain ⟨hotherChild, hotherElement⟩ := List.mem_filter.1 hotherChild
  rcases Nat.lt_trichotomy child otherChild with hlt | rfl | hgt
  · exact (start_lt_of_insertion? hplaced hlt helement hotherElement h ho).ne
  · exact absurd (hplaced.isTree.eq_of_mem_children hchild hotherChild) hne
  · exact (start_lt_of_insertion? hplaced hgt hotherElement helement ho h).ne'

/-- Where no two definitions share their names no two insertions go to the same place. -/
theorem pairwise_fixesOf (hids : (document.domModules.filterMap (·.id?)).Nodup) :
    ((document.domModules.flatMap (fixesOf document)).flatMap Prod.snd).Pairwise
      (fun a b => a.range.offsets.start ≠ b.range.offsets.start) := by
  have hapart {module other : DomModule} {usage otherUsage : NodeId} (hne : usage ≠ otherUsage)
      {entry otherEntry : SourceRange × Edit}
      (h : usageFix? document (slotsOf document module) usage = some entry)
      (ho : usageFix? document (slotsOf document other) otherUsage = some otherEntry) :
      ∀ a ∈ entry.2, ∀ b ∈ otherEntry.2, a.range.offsets.start ≠ b.range.offsets.start := by
    intro a ha b hb
    rw [(eq_of_usageFix?_eq_some h).2] at ha
    rw [(eq_of_usageFix?_eq_some ho).2] at hb
    exact start_ne_of_usage_ne hplaced hne ha hb
  refine List.pairwise_flatMap.2 ⟨?_, List.pairwise_flatMap.2 ⟨?_, ?_⟩⟩
  · -- within a fix
    intro entry hmem
    obtain ⟨module, -, hmem⟩ := List.mem_flatMap.1 hmem
    obtain ⟨usage, -, h⟩ := List.mem_filterMap.1 hmem
    rw [(eq_of_usageFix?_eq_some h).2]
    exact (pairwise_insertions hplaced _ usage).imp fun hlt => hlt.ne
  · -- within a definition: its usages are different nodes
    intro module _
    have husages : (usagesOf document module).Nodup := by
      rw [usagesOf]
      split
      · exact .nil
      · exact (document.lists_elementsNamed _).increasing.imp Nat.ne_of_lt
    rw [fixesOf, List.pairwise_filterMap]
    exact husages.imp fun hne entry h otherEntry ho => hapart hne h ho
  · -- within the document: usages of different elements are different nodes
    refine List.Pairwise.imp ?_ (List.pairwise_filterMap.1 hids)
    intro module other hne entry h otherEntry ho
    obtain ⟨usage, husage, h⟩ := List.mem_filterMap.1 h
    obtain ⟨otherUsage, hotherUsage, ho⟩ := List.mem_filterMap.1 ho
    obtain ⟨element, hid, htag⟩ := exists_of_mem_usagesOf husage
    obtain ⟨otherElement, hotherId, hotherTag⟩ := exists_of_mem_usagesOf hotherUsage
    refine hapart (fun heq => hne element hid otherElement hotherId ?_) h ho
    rw [heq, hotherTag] at htag
    exact (Option.some.inj htag).symm

/-! ### The warnings about a document -/

/-- The insertions of a warning follow each other behind its range. -/
theorem pairwise_of_mem_check (h : check document = .ok warnings) {warning : Warning}
    (hmem : warning ∈ warnings) (hfix : warning.fix = some fix) :
    fix.Pairwise (fun a b => a.range.offsets.start < b.range.offsets.start) ∧
      ∀ replacement ∈ fix, warning.range.offsets.stop < replacement.range.offsets.start := by
  have hentry : (warning.range, fix) ∈ warnings.filterMap rangeAndFix? :=
    List.mem_filterMap.2 ⟨warning, hmem, by rw [rangeAndFix?, hfix, Option.map_some]⟩
  rw [rangeAndFix?_of_check_eq_ok h] at hentry
  obtain ⟨module, -, hentry⟩ := List.mem_flatMap.1 hentry
  obtain ⟨usage, husage, hentry⟩ := List.mem_filterMap.1 hentry
  obtain ⟨hrange, rfl⟩ := eq_of_usageFix?_eq_some hentry
  refine ⟨pairwise_insertions hplaced _ usage, fun replacement hmem => ?_⟩
  exact stop_lt_of_mem_insertions hplaced (isElement_of_mem_usagesOf husage) hrange hmem

omit hplaced in
theorem flatten_fixes_of_check_eq_ok (h : check document = .ok warnings) :
    (warnings.filterMap (·.fix)).flatten =
      (document.domModules.flatMap (fixesOf document)).flatMap Prod.snd := by
  rw [← rangeAndFix?_of_check_eq_ok h, List.flatMap_def, List.map_filterMap]
  simp [rangeAndFix?, Option.map_map, Function.comp_def]

omit hplaced in
/-- Every insertion puts the attribute for a slot of a definition. -/
theorem exists_slot_of_mem_fixes (h : check document = .ok warnings) {replacement : Replacement}
    (hmem : replacement ∈ (warnings.filterMap (·.fix)).flatten) :
    ∃ module ∈ document.domModules, ∃ slot ∈ slotsOf document module,
      replacement.text = slotAttribute slot := by
  rw [flatten_fixes_of_check_eq_ok h] at hmem
  obtain ⟨entry, hentry, hmem⟩ := List.mem_flatMap.1 hmem
  obtain ⟨module, hmodule, hentry⟩ := List.mem_flatMap.1 hentry
  obtain ⟨usage, -, hentry⟩ := List.mem_filterMap.1 hentry
  rw [(eq_of_usageFix?_eq_some hentry).2] at hmem
  obtain ⟨child, -, hchild⟩ := List.mem_filterMap.1 hmem
  obtain ⟨-, -, -, slot, hslot, htext⟩ := exists_of_insertion?_eq_some hchild
  exact ⟨module, hmodule, slot, hslot, htext⟩

/-- No two insertions go to the same place. -/
theorem pairwise_flatten_fixes (hids : (document.domModules.filterMap (·.id?)).Nodup)
    (h : check document = .ok warnings) :
    (warnings.filterMap (·.fix)).flatten.Pairwise
      (fun a b => a.range.offsets.start ≠ b.range.offsets.start) := by
  rw [flatten_fixes_of_check_eq_ok h]
  exact pairwise_fixesOf hplaced hids

/-- All insertions go into the text of the document. -/
theorem insertsInto_of_mem_fixes (h : check document = .ok warnings) {replacement : Replacement}
    (hmem : replacement ∈ (warnings.filterMap (·.fix)).flatten) :
    replacement.InsertsInto document.url document.contents := by
  obtain ⟨fix, hfix, hmem⟩ := List.mem_flatten.1 hmem
  obtain ⟨warning, hwarning, hfix⟩ := List.mem_filterMap.1 hfix
  exact (check_liesIn hplaced.spansStand h warning hwarning).fix_inserts fix hfix replacement hmem

/-- In whatever order the fixes are given, all are applied. -/
theorem applyEditsIn_fixes_of_wellPlaced (hids : (document.domModules.filterMap (·.id?)).Nodup)
    (h : check document = .ok warnings) {order : EditSelection → List String}
    (horder : ∀ selection, (order selection).Perm selection.files) {edits : List Edit}
    (hperm : edits.Perm (warnings.filterMap (·.fix))) {loader : Loader}
    (hload : loader.load document.url = .done document.contents) :
    ∃ files, applyEditsIn order edits loader = .done ⟨edits, [], files⟩ ∧
      ∀ file, files.get? file =
        if file = document.url ∧ edits.flatten ≠ [] then
          some (String.ofList (Text.weave (insertedAt (warnings.filterMap (·.fix)).flatten) 0
            document.contents.toList))
        else none := by
  have hinto : ∀ replacement ∈ edits.flatten,
      replacement.InsertsInto document.url document.contents := fun replacement hmem =>
    insertsInto_of_mem_fixes hplaced h (hperm.flatten.subset hmem)
  have hne : edits.flatten.Pairwise
      (fun a b => a.range.offsets.start ≠ b.range.offsets.start) :=
    (hperm.flatten.pairwise_iff fun hne => hne.symm).2 (pairwise_flatten_fixes hplaced hids h)
  rw [← insertedAt_perm hperm.flatten hne]
  exact applyEditsIn_of_one_file hinto hne horder hload

end WellPlaced

/-! ### The edited text -/

/-- The fixes of a parsed document whose definitions have different names are in order: the
insertions of each follow each other behind the start tag of the usage, no two go to one place, and
in whatever order the fixes are given, all are applied, each place getting one attribute `slot` with
the name of a slot. -/
theorem applyEditsIn_fixes (url contents : String)
    (hids : ((Document.parse url contents).domModules.filterMap (·.id?)).Nodup)
    (h : check (Document.parse url contents) = .ok warnings) :
    let fixes := warnings.filterMap (·.fix)
    (∀ warning ∈ warnings, ∀ fix ∈ warning.fix,
      fix.Pairwise (fun a b => a.range.offsets.start < b.range.offsets.start) ∧
        ∀ replacement ∈ fix,
          warning.range.offsets.stop < replacement.range.offsets.start) ∧
      (fixes.flatten.map (·.range.offsets.start)).Nodup ∧
      (∀ replacement ∈ fixes.flatten,
        insertedAt fixes.flatten replacement.range.offsets.start = replacement.text.toList ∧
          ∃ module ∈ (Document.parse url contents).domModules,
            ∃ slot ∈ slotsOf (Document.parse url contents) module,
              replacement.text = " slot=\"" ++ slot.name ++ "\"") ∧
      ∀ order : EditSelection → List String,
        (∀ selection, (order selection).Perm selection.files) →
        ∀ edits, edits.Perm fixes → ∀ loader : Loader, loader.load url = .done contents →
          ∃ files, applyEditsIn order edits loader = .done ⟨edits, [], files⟩ ∧
            ∀ file, files.get? file =
              if file = url ∧ edits.flatten ≠ [] then
                some (String.ofList (Text.weave (insertedAt fixes.flatten) 0 contents.toList))
              else none := by
  have hplaced := Document.wellPlaced_parse url contents
  have hne := pairwise_flatten_fixes hplaced hids h
  refine ⟨fun warning hmem fix hfix => pairwise_of_mem_check hplaced h hmem hfix,
    List.pairwise_map.2 hne, fun replacement hmem => ?_, ?_⟩
  · exact ⟨insertedAt_of_mem hne hmem, exists_slot_of_mem_fixes h hmem⟩
  · intro order horder edits hperm loader hload
    exact applyEditsIn_fixes_of_wellPlaced hplaced hids h horder hperm hload

/-- The children of a usage and of another one inside it; the fixes are given the last one first. -/
theorem applyEditsIn_fixes_nested :
    let contents := "<dom-module id=a-b><template><slot name=x old-content-selector=*>" ++
      "</template></dom-module><a-b><i-j>é</i-j><i-j><a-b><i-j>"
    let changed := "<dom-module id=a-b><template><slot name=x old-content-selector=*>" ++
      "</template></dom-module><a-b><i-j slot=\"x\">é</i-j><i-j slot=\"x\"><a-b><i-j slot=\"x\">"
    let insertion (column offset : Nat) : Replacement :=
      ⟨⟨"a", ⟨0, column⟩, ⟨0, column⟩, ⟨offset, offset⟩⟩, " slot=\"x\""⟩
    let fixes := [[insertion 98 98, insertion 110 111], [insertion 120 121]]
    ∃ warnings, check (.parse "a" contents) = .ok warnings ∧
      warnings.filterMap (·.fix) = fixes ∧
      (∀ warning ∈ warnings, ∀ fix ∈ warning.fix, ∀ replacement ∈ fix,
        warning.range.offsets.stop < replacement.range.offsets.start) ∧
      ∃ files, applyEdits fixes.reverse (.ofTable (.ofList [("a", contents)])) =
          .done ⟨fixes.reverse, [], files⟩ ∧
        files.get? "a" = some changed := by
  intro contents changed insertion fixes
  have hids : ((Document.parse "a" contents).domModules.filterMap (·.id?)).Nodup := by
    decide +kernel
  have hchecked : (check (.parse "a" contents)).map (fun warnings =>
      warnings.filterMap (·.fix)) = .ok fixes := by
    decide +kernel
  obtain ⟨warnings, hcheck, hfixes⟩ := Except.exists_of_map_eq_ok hchecked
  obtain ⟨hbehind, -, -, happly⟩ := applyEditsIn_fixes "a" contents hids hcheck
  rw [hfixes] at happly
  obtain ⟨files, hfiles, hget⟩ := happly EditSelection.files (fun _ => .refl _) fixes.reverse
    (List.reverse_perm _) (.ofTable (.ofList [("a", contents)])) rfl
  refine ⟨warnings, hcheck, hfixes, fun warning hmem fix hfix =>
    (hbehind warning hmem fix hfix).2, files, hfiles, ?_⟩
  rw [hget "a", if_pos ⟨rfl, by decide⟩]
  -- the text with the attributes at their places
  decide +kernel

end ElementLint.ContentToSlotUsages
