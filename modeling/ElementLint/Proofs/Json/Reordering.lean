import Mathlib.Data.List.Forall2
import Mathlib.Data.Option.Basic
import Mathlib.Logic.Relation
import ElementLint.Json.Record
import ElementLint.Proofs.Json.RoundTrip

/-!
# The order of the fields of objects

Two values are reorderings of each other if they differ only in the order of the fields of their
objects, at any depth. A reader whose answer is the same for both is stable. The readers of scalars
are, and readers of lists and of records are if those of their parts are.

## Main definitions

* `Json.Reorders`: the fields of one object are put in another order.
* `Json.Reordered`: the fields of any number of objects are.
* `Json.Stable`: a function of a value that does not depend on these orders.

## Main results

* `Json.stable_record`: what is built from the fields of a record does not depend on their order.
* `Json.Reordered.spelled`: reordering keeps what makes a value readable from its text.
-/

namespace ElementLint.Json

/-- The fields of one object, anywhere in the first value, are in another order in the second. -/
inductive Reorders : Json → Json → Prop
  | fields {fields fields' : List (Option String × Json)} (h : fields.Perm fields') :
      Reorders (.object fields) (.object fields')
  | field {value value' : Json} (before : List (Option String × Json)) (key : Option String)
      (after : List (Option String × Json)) (h : Reorders value value') :
      Reorders (.object (before ++ (key, value) :: after))
        (.object (before ++ (key, value') :: after))
  | item {value value' : Json} (before after : List Json) (h : Reorders value value') :
      Reorders (.array (before ++ value :: after)) (.array (before ++ value' :: after))

/-- The fields of any number of objects in the first value are in another order in the second. -/
def Reordered : Json → Json → Prop := Relation.ReflTransGen Reorders

theorem Reordered.refl (value : Json) : value.Reordered value := Relation.ReflTransGen.refl

theorem Reorders.reordered {value value' : Json} (h : value.Reorders value') :
    value.Reordered value' := Relation.ReflTransGen.single h

theorem Reorders.spelled {value value' : Json} (h : value.Reorders value')
    (hvalue : value.Spelled) : value'.Spelled := by
  induction h with
  | fields h =>
    cases hvalue with | object hfields =>
    exact .object fun field hfield => hfields field (h.mem_iff.mpr hfield)
  | field before key after h ih =>
    cases hvalue with | object hfields =>
    refine .object ?_
    simp only [List.forall_mem_append, List.forall_mem_cons] at hfields ⊢
    exact ⟨hfields.1, ih hfields.2.1, hfields.2.2⟩
  | item before after h ih =>
    cases hvalue with | array hitems =>
    refine .array ?_
    simp only [List.forall_mem_append, List.forall_mem_cons] at hitems ⊢
    exact ⟨hitems.1, ih hitems.2.1, hitems.2.2⟩

theorem Reordered.spelled {value value' : Json} (h : value.Reordered value')
    (hvalue : value.Spelled) : value'.Spelled := by
  induction h with
  | refl => exact hvalue
  | tail _ hstep ih => exact hstep.spelled ih

/-! ## Stable functions -/

/-- The function has the same value for all reorderings of a value. -/
def Stable {α : Type} (f : Json → α) : Prop :=
  ∀ ⦃value value' : Json⦄, value.Reordered value' → f value = f value'

variable {α β : Type}

theorem stable_of_reorders {f : Json → α}
    (h : ∀ ⦃value value' : Json⦄, value.Reorders value' → f value = f value') : Stable f := by
  intro value value' hvalue
  induction hvalue with
  | refl => rfl
  | tail _ hstep ih => exact ih.trans (h hstep)

theorem stable_text? : Stable text? :=
  stable_of_reorders fun _ _ h => by cases h <;> rfl

theorem stable_nat? : Stable nat? :=
  stable_of_reorders fun _ _ h => by cases h <;> rfl

theorem stable_all_keys (p : Option String → Bool) : Stable fun value => value.keys.all p :=
  stable_of_reorders fun _ _ h => by
    cases h with
    | fields h => exact (h.map _).all_eq
    | field => simp [keys]
    | item => rfl

theorem stable_nullable {decode : Json → Option α} (hdecode : Stable decode) :
    Stable (nullable decode) :=
  stable_of_reorders fun _ _ h => by
    have heq := hdecode h.reordered
    cases h <;> exact congrArg (Option.map some) heq

theorem stable_listOf? {decode : Json → Option α} (hdecode : Stable decode) :
    Stable (listOf? decode) :=
  stable_of_reorders fun _ _ h => by
    cases h with
    | fields => rfl
    | field => rfl
    | item before after h =>
      simp [listOf?, items?, List.mapM_append, List.mapM_cons, hdecode h.reordered]

/-! ## Records -/

/-- The value of a field of an object, which must not be there twice. -/
def lookup? (fields : List (Option String × Json)) (name : String) : Option (Option Json) :=
  match fields.filter (·.1 == some name) with
  | [] => some none
  | [field] => some (some field.2)
  | _ => none

theorem record?_object (names : List String) (fields : List (Option String × Json)) :
    record? names (.object fields) =
      if fields.all (·.1.isSome) then names.mapM (lookup? fields) else none := by
  cases h : fields.all (·.1.isSome)
  · simp [record?, h]
  · simp only [record?, h, if_true]
    rfl

theorem rel_refl {R : α → α → Prop} (h : ∀ a, R a a) (value : Option α) :
    Option.Rel R value value := by
  cases value with
  | none => exact .none
  | some value => exact .some (h value)

/-- Two fields that are both left out, or hold reorderings of one value. -/
def SameField : Option Json → Option Json → Prop := Option.Rel Reordered

theorem SameField.refl (field : Option Json) : SameField field field :=
  rel_refl Reordered.refl field

theorem forall₂_sameField_refl (fields : List (Option Json)) :
    List.Forall₂ SameField fields fields :=
  List.forall₂_same.mpr fun field _ => .refl field

theorem lookup?_perm {fields fields' : List (Option String × Json)} (h : fields.Perm fields') :
    lookup? fields = lookup? fields' := by
  funext name
  have hfilter := h.filter (·.1 == some name)
  unfold lookup?
  generalize fields.filter (·.1 == some name) = found at hfilter ⊢
  generalize fields'.filter (·.1 == some name) = found' at hfilter ⊢
  match found with
  | [] => rw [List.nil_perm.mp hfilter]
  | [field] => rw [List.singleton_perm.mp hfilter]
  | _ :: _ :: _ =>
    match found', hfilter.length_eq with
    | _ :: _ :: _, _ => rfl

theorem lookup?_field {value value' : Json} (before : List (Option String × Json))
    (key : Option String) (after : List (Option String × Json)) (h : value.Reordered value')
    (name : String) :
    Option.Rel SameField (lookup? (before ++ (key, value) :: after) name)
      (lookup? (before ++ (key, value') :: after) name) := by
  by_cases hkey : key = some name
  · simp only [lookup?, List.filter_append, List.filter_cons, hkey, beq_self_eq_true, if_true]
    -- found once only where the fields before and after are of other keys
    cases before.filter (·.1 == some name) with
    | nil =>
      cases after.filter (·.1 == some name) with
      | nil => exact .some (.some h)
      | cons => exact .none
    | cons found before => cases before <;> exact .none
  · have heq : lookup? (before ++ (key, value) :: after) name =
        lookup? (before ++ (key, value') :: after) name := by
      simp [lookup?, hkey]
    rw [heq]
    exact rel_refl SameField.refl _

theorem mapM_rel {R : β → β → Prop} {f g : α → Option β} (h : ∀ a, Option.Rel R (f a) (g a))
    (list : List α) : Option.Rel (List.Forall₂ R) (list.mapM f) (list.mapM g) := by
  induction list with
  | nil => exact .some .nil
  | cons a list ih =>
    have hhead := h a
    rw [List.mapM_cons, List.mapM_cons]
    generalize f a = first, g a = first' at hhead ⊢
    generalize list.mapM f = rest, list.mapM g = rest' at ih ⊢
    cases hhead with
    | none => exact .none
    | some hhead =>
      cases ih with
      | none => exact .none
      | some htail => exact .some (.cons hhead htail)

/-- The fields of a record hold reorderings of the same values. -/
theorem record?_reorders (names : List String) {value value' : Json} (h : value.Reorders value') :
    Option.Rel (List.Forall₂ SameField) (value.record? names) (value'.record? names) := by
  cases h with
  | fields h =>
    rw [record?_object, record?_object, lookup?_perm h, h.all_eq]
    exact rel_refl forall₂_sameField_refl _
  | field before key after h =>
    rw [record?_object, record?_object]
    simp only [List.all_append, List.all_cons]
    split
    · exact mapM_rel (lookup?_field before key after h.reordered) names
    · exact .none
  | item before after h =>
    simp only [record?, List.length_append, List.length_cons]
    split
    · simp only [List.map_append, List.map_cons, List.append_assoc, List.cons_append]
      exact .some (List.rel_append (forall₂_sameField_refl _)
        (.cons (.some h.reordered) (forall₂_sameField_refl _)))
    · exact .none

/-- What is built from the fields of a record does not depend on their order, nor on the order of
fields inside them. -/
theorem stable_record (names : List String) {build : List (Option Json) → Option α}
    (hbuild : ∀ fields fields', List.Forall₂ SameField fields fields' →
      build fields = build fields') :
    Stable fun value => (value.record? names).bind build :=
  stable_of_reorders fun value value' h => by
    have hfields := record?_reorders names h
    generalize value.record? names = fields, value'.record? names = fields' at hfields ⊢
    cases hfields with
    | none => rfl
    | some hfields => exact hbuild _ _ hfields

theorem required_congr {decode : Json → Option α} (hdecode : Stable decode)
    {field field' : Option Json} (h : SameField field field') :
    required decode field = required decode field' := by
  cases h with
  | none => rfl
  | some h => exact hdecode h

theorem optional_congr {decode : Json → Option α} (hdecode : Stable decode) (default : α)
    {field field' : Option Json} (h : SameField field field') :
    optional default decode field = optional default decode field' := by
  cases h with
  | none => rfl
  | some h => exact hdecode h

end ElementLint.Json
