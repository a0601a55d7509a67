import ElementLint.Selector.Basic

/-!
# What a selector matches

A selector matches the elements that meet all conditions of one of its alternatives
(`Selector.Matches`), and this is what its test finds out (`Selector.accepts_iff`).
-/

namespace ElementLint

namespace Selector

variable {tag : String} {attribute? : String → Option String}

/-- What a test asks of the attributes of an element. -/
def AttributeTest.Matches (attribute? : String → Option String) : AttributeTest → Prop
  | .present name => ∃ value, attribute? name = some value
  | .equals name value => attribute? name = some value

/-- What a compound selector asks of an element. -/
structure Compound.Matches (compound : Compound) (tag : String)
    (attribute? : String → Option String) : Prop where
  element : ∀ name ∈ compound.element, Text.lower name.toList = Text.lower tag.toList
  id : ∀ id ∈ compound.id, attribute? "id" = some id
  classes : ∀ name ∈ compound.classes,
    ∃ value, attribute? "class" = some value ∧ name.toList ∈ Text.words value.toList
  attributes : ∀ test ∈ compound.attributes, test.Matches attribute?

theorem AttributeTest.accepts_iff {test : AttributeTest} :
    test.accepts attribute? = true ↔ test.Matches attribute? := by
  cases test with
  | present name => exact Option.isSome_iff_exists
  | equals name value => exact beq_iff_eq

/-- An element without classes has an empty list of them. -/
theorem mem_words_getD_iff {value? : Option String} {word : List Char} :
    word ∈ Text.words (value?.getD "").toList ↔
      ∃ value, value? = some value ∧ word ∈ Text.words value.toList := by
  cases value? with
  | none =>
    have hempty : Text.words [] = [] := by decide
    simp [hempty]
  | some value => simp

theorem Compound.accepts_iff {compound : Compound} :
    compound.accepts tag attribute? = true ↔ compound.Matches tag attribute? := by
  simp only [accepts, Bool.and_eq_true, Option.all_eq_true, List.all_eq_true, Text.sameName,
    beq_iff_eq, List.contains_iff_mem, mem_words_getD_iff, AttributeTest.accepts_iff]
  constructor
  · rintro ⟨⟨⟨helement, hid⟩, hclasses⟩, hattributes⟩
    exact ⟨helement, hid, hclasses, hattributes⟩
  · rintro ⟨helement, hid, hclasses, hattributes⟩
    exact ⟨⟨⟨helement, hid⟩, hclasses⟩, hattributes⟩

end Selector

/-- A selector matches what one of its alternatives does. -/
def Selector.Matches (selector : Selector) (tag : String) (attribute? : String → Option String) :
    Prop :=
  ∃ compound ∈ selector.alternatives, compound.Matches tag attribute?

theorem Selector.accepts_iff {selector : Selector} {tag : String}
    {attribute? : String → Option String} :
    selector.accepts tag attribute? = true ↔ selector.Matches tag attribute? := by
  rw [Selector.accepts, List.any_eq_true]
  exact exists_congr fun compound => and_congr_right fun _ => Compound.accepts_iff

end ElementLint
