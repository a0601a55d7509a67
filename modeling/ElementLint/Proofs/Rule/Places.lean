import ElementLint.Proofs.Document.Places
import ElementLint.Proofs.Error
import ElementLint.Rule.ContentToSlotUsages
import ElementLint.Rule.PaperButtonStyle

/-!
# Places in the warnings of the rules

Every warning that one of the two rules has about a document points at a place of its text, and its
fix only inserts into the text.
-/

namespace ElementLint

variable {document : Document} {warning : Warning} {warnings : List Warning}

namespace PaperButtonStyle

/-- The warning points at the button; its fix inserts after the start tag of the template. -/
theorem warningFor_liesIn (hspans : document.SpansStand) {template content button : NodeId}
    (h : warningFor document template content button = .ok warning) :
    warning.LiesIn document.url document.contents := by
  unfold warningFor at h
  split at h
  · contradiction
  · next range hrange =>
    split at h
    · contradiction
    · next insertion hinsertion =>
      obtain rfl := Except.ok.inj h
      refine ⟨hspans.elementRange?_liesIn hrange, ?_⟩
      rintro edit ⟨⟩ replacement hmem
      obtain rfl := List.mem_singleton.1 hmem
      exact hspans.prependContent?_insertsInto hinsertion

theorem check_liesIn (hspans : document.SpansStand) (h : check document = .ok warnings) :
    ∀ warning ∈ warnings, warning.LiesIn document.url document.contents := by
  intro warning hmem
  obtain ⟨⟨template, content, button⟩, -, hwarning⟩ := Except.exists_of_mem_mapM h hmem
  exact warningFor_liesIn hspans hwarning

/-- The rule answers with the warnings of its check. -/
theorem rule_check_eq_done_iff :
    rule.check document = .done warnings ↔ check document = .ok warnings :=
  Outcome.ofExcept_eq_done

end PaperButtonStyle

namespace ContentToSlotUsages

/-- The warning points at the value of the selector and has no fix. -/
theorem slotWarning?_liesIn (hspans : document.SpansStand) {slot : NodeId}
    (h : slotWarning? document slot = .ok (some warning)) :
    warning.LiesIn document.url document.contents := by
  unfold slotWarning? at h
  split at h
  · cases Except.ok.inj h
  · split at h
    · contradiction
    · next range hrange =>
      obtain rfl := Option.some.inj (Except.ok.inj h)
      exact ⟨hspans.attributeValueRange?_liesIn hrange, by simp⟩

/-- The warning points at the start tag of the usage; its fix inserts after the tag names of the
children. -/
theorem usageWarning?_liesIn (hspans : document.SpansStand) {slots : List NamedSlot}
    {usage : NodeId} (h : usageWarning? document slots usage = .ok (some warning)) :
    warning.LiesIn document.url document.contents := by
  unfold usageWarning? at h
  dsimp only at h
  split at h
  · cases Except.ok.inj h
  · split at h
    · contradiction
    · next range hrange =>
      obtain rfl := Option.some.inj (Except.ok.inj h)
      refine ⟨hspans.startTagRange?_liesIn hrange, ?_⟩
      rintro edit ⟨⟩ replacement hmem
      obtain ⟨child, -, hchild⟩ := List.mem_filterMap.1 hmem
      obtain ⟨slot, -, hinsertion⟩ := Option.bind_eq_some_iff.1 hchild
      exact hspans.insertAfterTagName?_insertsInto hinsertion

theorem usageWarnings_liesIn (hspans : document.SpansStand) {slots : List NamedSlot}
    {element? : Option String} (h : usageWarnings document slots element? = .ok warnings) :
    ∀ warning ∈ warnings, warning.LiesIn document.url document.contents := by
  unfold usageWarnings at h
  split at h
  · obtain rfl := Except.ok.inj h
    simp
  · split at h
    · obtain rfl := Except.ok.inj h
      simp
    · intro warning hmem
      obtain ⟨usage, -, hwarning⟩ := Except.exists_of_mem_filterMapM h hmem
      exact usageWarning?_liesIn hspans hwarning

theorem moduleWarnings_liesIn (hspans : document.SpansStand) {module : DomModule}
    (h : moduleWarnings document module = .ok warnings) :
    ∀ warning ∈ warnings, warning.LiesIn document.url document.contents := by
  unfold moduleWarnings at h
  split at h
  · obtain rfl := Except.ok.inj h
    simp
  · next content _ =>
    obtain ⟨problems, hproblems, h⟩ := Except.bind_eq_ok h
    obtain ⟨usages, husages, h⟩ := Except.bind_eq_ok h
    obtain rfl : problems ++ usages = warnings := Except.ok.inj h
    intro warning hmem
    rcases List.mem_append.1 hmem with hmem | hmem
    · obtain ⟨slot, -, hwarning⟩ := Except.exists_of_mem_filterMapM hproblems hmem
      exact slotWarning?_liesIn hspans hwarning
    · exact usageWarnings_liesIn hspans husages warning hmem

theorem check_liesIn (hspans : document.SpansStand) (h : check document = .ok warnings) :
    ∀ warning ∈ warnings, warning.LiesIn document.url document.contents := by
  unfold check at h
  cases hmodules : document.domModules.mapM (moduleWarnings document) with
  | error error =>
    rw [hmodules] at h
    contradiction
  | ok found =>
    rw [hmodules] at h
    obtain rfl : found.flatten = warnings := Except.ok.inj h
    intro warning hmem
    obtain ⟨some, hsome, hmem⟩ := List.mem_flatten.1 hmem
    obtain ⟨module, -, hmodule⟩ := Except.exists_of_mem_mapM hmodules hsome
    exact moduleWarnings_liesIn hspans hmodule warning hmem

/-- The rule answers with the warnings of its check. -/
theorem rule_check_eq_done_iff :
    rule.check document = .done warnings ↔ check document = .ok warnings :=
  Outcome.ofExcept_eq_done

end ContentToSlotUsages

/-- Whether a rule is one of the two that come with the linter. -/
def Rule.IsBuiltIn (rule : Rule) : Prop :=
  rule = PaperButtonStyle.rule ∨ rule = ContentToSlotUsages.rule

/-- The warnings of the rules point at places of the text, and their fixes only insert. -/
theorem Rule.IsBuiltIn.check_liesIn {rule : Rule} (hrule : rule.IsBuiltIn)
    (hspans : document.SpansStand) (h : rule.check document = .done warnings) :
    ∀ warning ∈ warnings, warning.LiesIn document.url document.contents := by
  rcases hrule with rfl | rfl
  · exact PaperButtonStyle.check_liesIn hspans (PaperButtonStyle.rule_check_eq_done_iff.1 h)
  · exact ContentToSlotUsages.check_liesIn hspans (ContentToSlotUsages.rule_check_eq_done_iff.1 h)

end ElementLint
