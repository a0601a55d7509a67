import ElementLint.Proofs.Document.Descent
import ElementLint.Proofs.Error
import ElementLint.Rule.Basic

/-!
# Definitions in a document

Both rules go through the `<dom-module>` elements of a document and look for the first template of
each. In a document whose searches give nodes in their order these are the least nodes of their kind
(`Document.Ordered.lists_domModules`, `Document.Ordered.template?_eq_some_iff`), and what is said
about them one by one is said about a list (`Document.filterMapM_eq_ok_iff_of_lists`).
-/

namespace ElementLint.Document

variable {document : Document}

/-! ### Answers about listed nodes -/

section Lists

variable {β ε : Type} {p : NodeId → Prop} {accepts : NodeId → Bool} {ids : List NodeId}
  (h : Lists p (ids.filter accepts))
include h

theorem filterMapM_eq_ok_iff_of_lists {f : NodeId → Except ε (Option β)} {R : NodeId → β → Prop}
    {answers : List β} (hnone : ∀ id, accepts id = false → f id = .ok none)
    (hsome : ∀ id, p id → ∀ found, f id = .ok found ↔ ∃ answer, found = some answer ∧ R id answer) :
    ids.filterMapM f = .ok answers ↔ ∃ listed, Lists p listed ∧ List.Forall₂ R listed answers := by
  rw [Except.filterMapM_eq_ok_iff (fun id _ => hnone id) fun id hmem haccepts =>
    hsome id ((h.mem_iff id).1 (List.mem_filter.2 ⟨hmem, haccepts⟩))]
  constructor
  · exact fun hanswers => ⟨_, h, hanswers⟩
  · rintro ⟨listed, hlisted, hanswers⟩
    rwa [h.unique hlisted]

theorem exists_filterMapM_eq_error_iff_of_lists {f : NodeId → Except ε (Option β)}
    (hnone : ∀ id, accepts id = false → f id = .ok none) :
    (∃ error, ids.filterMapM f = .error error) ↔ ∃ id, p id ∧ ∃ error, f id = .error error := by
  rw [Except.exists_filterMapM_eq_error_iff]
  constructor
  · rintro ⟨id, hmem, error, herror⟩
    cases haccepts : accepts id with
    | false =>
      rw [hnone id haccepts] at herror
      contradiction
    | true => exact ⟨id, (h.mem_iff id).1 (List.mem_filter.2 ⟨hmem, haccepts⟩), error, herror⟩
  · rintro ⟨id, hid, error, herror⟩
    exact ⟨id, (List.mem_filter.1 ((h.mem_iff id).2 hid)).1, error, herror⟩

end Lists

/-! ### Definitions -/

/-- The definition of an element by a node. -/
def definition (document : Document) (module : NodeId) : DomModule :=
  ⟨document.attribute? module "id", module⟩

theorem domModules_eq_map (document : Document) :
    document.domModules =
      (document.queryAll root (document.hasTagName · "dom-module")).map document.definition :=
  rfl

namespace Ordered

variable (hordered : document.Ordered)
include hordered

theorem lists_domModules :
    Lists (fun module => document.Below root module ∧ document.tagName? module = some "dom-module")
      (document.queryAll root (document.hasTagName · "dom-module")) :=
  ((hordered.lists_descendants root).filter _).congr fun module => by rw [hasTagName, beq_iff_eq]

/-- The search for a tag name finds the first element of that name. -/
theorem query?_eq_some_iff (id : NodeId) (name : String) (found : NodeId) :
    document.query? id (document.hasTagName · name) = some found ↔
      IsLeast {other | document.Below id other ∧ document.tagName? other = some name} found := by
  rw [query?, (hordered.lists_descendants id).find?_eq_some_iff]
  simp only [hasTagName, beq_iff_eq]

/-- The template of a definition is the first one below it. -/
theorem template?_eq_some_iff {module template : NodeId} :
    (document.definition module).template? document = some template ↔
      IsLeast {id | document.Below module id ∧ document.tagName? id = some "template"} template :=
  hordered.query?_eq_some_iff module "template" template

end Ordered

end ElementLint.Document
