import ElementLint.Rule.ContentToSlotUsages
import ElementLint.Rule.PaperButtonStyle

/-!
# Registries of rules

A `Registry` holds the rules that a linter can choose from, in the order in which they were
registered, and a table that leads from a code to the place of its rule. A rule whose code is in use
is refused (`Registry.register`), so that the table leads to every rule and to nothing else.
-/

namespace ElementLint

/-- A table leads from a code to the one place at which a rule has this code. -/
def IsPlaceTable (rules : List Rule) (places : List (String × Nat)) : Prop :=
  ∀ code place, places.lookup code = some place ↔ (rules[place]?).map (·.code) = some code

/-- A code that is not in use gets the place behind the others. -/
theorem IsPlaceTable.concat {rules : List Rule} {places : List (String × Nat)} {rule : Rule}
    (h : IsPlaceTable rules places) (hnew : places.lookup rule.code = none) :
    IsPlaceTable (rules ++ [rule]) ((rule.code, rules.length) :: places) := by
  intro code place
  have hold := h code place
  rw [List.lookup_cons]
  rcases Nat.lt_trichotomy place rules.length with hlt | rfl | hgt
  · -- none of the earlier rules has the new code
    rw [List.getElem?_append_left hlt, ← hold]
    by_cases hcode : code = rule.code
    · simp [hcode, hnew, Nat.ne_of_gt hlt]
    · simp [beq_false_of_ne hcode]
  · rw [List.getElem?_concat_length]
    by_cases hcode : code = rule.code
    · simp [hcode]
    · rw [List.getElem?_eq_none (Nat.le_refl _)] at hold
      simp [beq_false_of_ne hcode, hold, Ne.symm hcode]
  · have hnone : (rules ++ [rule])[place]? = none :=
      List.getElem?_eq_none (by rw [List.length_append]; exact hgt)
    rw [List.getElem?_eq_none (Nat.le_of_lt hgt)] at hold
    rw [hnone]
    by_cases hcode : code = rule.code
    · simp [hcode, Nat.ne_of_lt hgt]
    · simp [beq_false_of_ne hcode, hold]

/-- Rules in the order of their registration, with a table of their places. -/
structure Registry where
  rules : List Rule
  /-- The places of the rules by their codes. -/
  places : List (String × Nat)
  isPlaceTable : IsPlaceTable rules places

namespace Registry

/-- The registry without rules. -/
def empty : Registry := ⟨[], [], fun _ _ => by simp⟩

/-- The codes of the rules. -/
def codes (registry : Registry) : List String :=
  registry.rules.map (·.code)

/-- The codes and descriptions of the rules. -/
def descriptions (registry : Registry) : List (String × String) :=
  registry.rules.map fun rule => (rule.code, rule.description)

/-- Puts a rule behind the others. -/
def add (registry : Registry) (rule : Rule) (hnew : registry.places.lookup rule.code = none) :
    Registry where
  rules := registry.rules ++ [rule]
  places := (rule.code, registry.rules.length) :: registry.places
  isPlaceTable := registry.isPlaceTable.concat hnew

/-- Adds a rule, unless its code is in use. The registry after the call comes with the answer. -/
def register (registry : Registry) (rule : Rule) : Except LintError Unit × Registry :=
  match h : registry.places.lookup rule.code with
  | some _ => (.error (.duplicateRule rule.code), registry)
  | none => (.ok (), registry.add rule h)

/-- Adds some rules in order, up to the first that is refused. -/
def registerAll (registry : Registry) : List Rule → Except LintError Registry
  | [] => .ok registry
  | rule :: rules =>
    match registry.register rule with
    | (.ok (), next) => next.registerAll rules
    | (.error error, _) => .error error

/-- The registry of the rules of this library. -/
def builtin : Except LintError Registry :=
  empty.registerAll [PaperButtonStyle.rule, ContentToSlotUsages.rule]

/-- A place in the table is that of a rule. -/
theorem lt_of_lookup {registry : Registry} {code : String} {place : Nat}
    (h : registry.places.lookup code = some place) : place < registry.rules.length := by
  obtain ⟨rule, hrule, -⟩ := Option.map_eq_some_iff.1 ((registry.isPlaceTable code place).1 h)
  exact (List.getElem?_eq_some_iff.1 hrule).1

/-- The rule of a code. -/
def find? (registry : Registry) (code : String) : Option Rule :=
  match h : registry.places.lookup code with
  | none => none
  | some place => some (registry.rules.get ⟨place, lt_of_lookup h⟩)

/-- Adds the rule of a code to some chosen ones, unless one of the code is among them. -/
def choose (registry : Registry) (chosen : List Rule) (code : String) :
    Except LintError (List Rule) :=
  match registry.find? code with
  | none => .error (.unknownRule code)
  | some rule => .ok (if chosen.any (·.code == code) then chosen else chosen ++ [rule])

/-- The rules of some codes, each once and in the order of the codes; all rules if no codes are
given. -/
def select (registry : Registry) : Option (List String) → Except LintError (List Rule)
  | none => .ok registry.rules
  | some codes => codes.foldlM registry.choose []

end Registry

end ElementLint
