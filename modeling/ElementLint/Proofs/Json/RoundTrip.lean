import ElementLint.Proofs.Json.Scalar

/-!
# Values in JSON text

What `Json.render` writes, `Json.parse` reads back. The one condition is on the numbers: a value
holds them by their spelling, and each must be one that the parser takes for a number.

* `Json.parse_render`: a value is read back from its text.
-/

namespace ElementLint.Json

/-- A text that spells a number. -/
def IsNumber (spelling : String) : Prop := Parser.number? spelling.toList = some (spelling, [])

/-- Every number in the value is spelled as a number. -/
inductive Spelled : Json → Prop
  | null : Spelled .null
  | bool (value : Bool) : Spelled (.bool value)
  | number {spelling : String} (h : IsNumber spelling) : Spelled (.number spelling)
  | string (text : Option String) : Spelled (.string text)
  | array {items : List Json} (h : ∀ item ∈ items, Spelled item) : Spelled (.array items)
  | object {fields : List (Option String × Json)} (h : ∀ field ∈ fields, Spelled field.2) :
      Spelled (.object fields)

theorem spelled_text (value : String) : (text value).Spelled := .string value

theorem spelled_nat (n : Nat) : (nat n).Spelled := .number (Parser.number?_toString n)

theorem spelled_ofFields {fields : List (String × Json)} (h : ∀ field ∈ fields, field.2.Spelled) :
    (ofFields fields).Spelled :=
  .object (List.forall_mem_map.mpr h)

namespace Parser

theorem skipSpace_cons {c : Char} (h : isSpace c = false) (rest : List Char) :
    skipSpace (c :: rest) = c :: rest := by
  simp [skipSpace, h]

/-! ## One value, one item, one field -/

/-- A text that starts with a number is read as one. -/
theorem value?_number {input after : List Char} {spelling : String} (steps : Nat)
    (h : number? input = some (spelling, after)) :
    value? (steps + 1) input = some (.number spelling, after) := by
  obtain ⟨c, rest, rfl, hspace, hother⟩ := number?_head h
  rw [value?, skipSpace_cons hspace]
  split <;> simp_all

theorem value?_quote (text : Option String) (steps : Nat) (rest : List Char) :
    value? (steps + 1) (quote text ++ rest) = some (.string text, rest) := by
  obtain ⟨body, hbody, hread⟩ := string?_quote text rest
  rw [hbody, List.cons_append, value?, skipSpace_cons rfl]
  simp [hread]

variable {steps : Nat} {input rest after : List Char}

theorem value?_array {c : Char} {items : List Json} (hspace : isSpace c = false) (hclose : c ≠ ']')
    (h : items? steps (c :: input) = some (items, rest)) :
    value? (steps + 1) ('[' :: c :: input) = some (.array items, rest) := by
  rw [value?, skipSpace_cons rfl]
  simp [skipSpace_cons hspace, hclose, h]

theorem value?_object {fields : List (Option String × Json)}
    (h : fields? steps ('"' :: input) = some (fields, rest)) :
    value? (steps + 1) ('\x7b' :: '"' :: input) = some (.object fields, rest) := by
  rw [value?, skipSpace_cons rfl]
  simp [skipSpace_cons, isSpace, h]

theorem items?_last {item : Json} (h : value? steps input = some (item, ']' :: rest)) :
    items? (steps + 1) input = some ([item], rest) := by
  simp [items?, h, skipSpace_cons, isSpace]

theorem items?_cons {item : Json} {items : List Json}
    (hitem : value? steps input = some (item, ',' :: rest))
    (hitems : items? steps rest = some (items, after)) :
    items? (steps + 1) input = some (item :: items, after) := by
  simp [items?, hitem, hitems, skipSpace_cons, isSpace]

theorem fields?_last (key : Option String) {value : Json}
    (h : value? steps input = some (value, '\x7d' :: rest)) :
    fields? (steps + 1) (quote key ++ ':' :: input) = some ([(key, value)], rest) := by
  obtain ⟨body, hbody, hread⟩ := string?_quote key (':' :: input)
  simp [fields?, hbody, hread, h, skipSpace_cons, isSpace]

theorem fields?_cons (key : Option String) {value : Json} {fields : List (Option String × Json)}
    (hvalue : value? steps input = some (value, ',' :: rest))
    (hfields : fields? steps rest = some (fields, after)) :
    fields? (steps + 1) (quote key ++ ':' :: input) = some ((key, value) :: fields, after) := by
  obtain ⟨body, hbody, hread⟩ := string?_quote key (':' :: input)
  simp [fields?, hbody, hread, hvalue, hfields, skipSpace_cons, isSpace]

/-! ## Whole values -/

/-- The text of a value starts with a character that is no blank and no closing bracket. -/
theorem characters_head {value : Json} (h : value.Spelled) :
    ∃ c rest, value.characters = c :: rest ∧ isSpace c = false ∧ c ≠ ']' := by
  cases h with
  | null => exact ⟨_, _, rfl, rfl, by decide⟩
  | bool value => cases value <;> exact ⟨_, _, rfl, rfl, by decide⟩
  | number h =>
    obtain ⟨c, rest, hspelling, hspace, hother⟩ := number?_head h
    exact ⟨c, rest, hspelling, hspace, fun hclose => hother (by simp [hclose])⟩
  | string text => cases text <;> exact ⟨_, _, rfl, rfl, by decide⟩
  | array => exact ⟨_, _, rfl, rfl, by decide⟩
  | object => exact ⟨_, _, rfl, rfl, by decide⟩

theorem characters_length_pos {value : Json} (h : value.Spelled) :
    0 < value.characters.length := by
  obtain ⟨c, rest, hchars, -⟩ := characters_head h
  simp [hchars]

theorem itemCharacters_head {items : List Json} (hne : items ≠ [])
    (h : ∀ item ∈ items, item.Spelled) :
    ∃ c rest, itemCharacters items = c :: rest ∧ isSpace c = false ∧ c ≠ ']' := by
  cases items with
  | nil => contradiction
  | cons item items =>
    obtain ⟨c, rest, hchars, hc⟩ := characters_head (h item List.mem_cons_self)
    cases items <;> simp [itemCharacters, hchars, hc]

/-- The text of the fields of an object starts with a quote. -/
theorem fieldCharacters_head {fields : List (Option String × Json)} (hne : fields ≠ []) :
    ∃ rest, fieldCharacters fields = '"' :: rest := by
  match fields with
  | (key, value) :: fields =>
    obtain ⟨body, hbody, -⟩ := string?_quote key []
    cases fields <;> simp [fieldCharacters, hbody]

mutual

/-- A value is read back from its text. As many steps as the text has characters are enough: the
brackets around an item make up for the two calls that lead to it. -/
theorem value?_characters (value : Json) (steps : Nat) (rest : List Char) (hvalue : value.Spelled)
    (hsteps : value.characters.length ≤ steps) (hrest : Follows rest) :
    value? steps (value.characters ++ rest) = some (value, rest) := by
  obtain ⟨steps, rfl⟩ := Nat.exists_eq_add_one.mpr ((characters_length_pos hvalue).trans_le hsteps)
  -- the recursion is that of the printer
  match value, hvalue with
  | .null, _ => simp [value?, characters, skipSpace, isSpace]
  | .bool true, _ => simp [value?, characters, skipSpace, isSpace]
  | .bool false, _ => simp [value?, characters, skipSpace, isSpace]
  | .number spelling, .number hspelling =>
    exact value?_number steps (number?_append hrest hspelling)
  | .string text, _ => exact value?_quote text steps rest
  | .array [], _ => simp [value?, characters, itemCharacters, skipSpace, isSpace]
  | .array (item :: items), .array hspelled =>
    simp only [characters, List.length_append, List.length_cons] at hsteps
    have hitems := items?_characters (item :: items) steps rest (by simp) hspelled (by omega)
    obtain ⟨c, tail, hchars, hspace, hclose⟩ := itemCharacters_head (by simp) hspelled
    rw [hchars, List.cons_append] at hitems
    simpa [characters, hchars] using value?_array hspace hclose hitems
  | .object [], _ => simp [value?, characters, fieldCharacters, skipSpace, isSpace]
  | .object (field :: fields), .object hspelled =>
    simp only [characters, List.length_append, List.length_cons] at hsteps
    have hfields := fields?_characters (field :: fields) steps rest (by simp) hspelled (by omega)
    obtain ⟨tail, hchars⟩ := fieldCharacters_head (List.cons_ne_nil field fields)
    rw [hchars, List.cons_append] at hfields
    simpa [characters, hchars] using value?_object hfields

theorem items?_characters (items : List Json) (steps : Nat) (rest : List Char) (hne : items ≠ [])
    (hspelled : ∀ item ∈ items, item.Spelled) (hsteps : (itemCharacters items).length < steps) :
    items? steps (itemCharacters items ++ ']' :: rest) = some (items, rest) := by
  obtain ⟨steps, rfl⟩ := Nat.exists_eq_add_one.mpr (Nat.zero_lt_of_lt hsteps)
  match items with
  | [item] =>
    rw [List.forall_mem_singleton] at hspelled
    simp only [itemCharacters] at hsteps ⊢
    exact items?_last (value?_characters item steps _ hspelled (by omega)
      (follows_cons (by decide) rest))
  | item :: next :: items =>
    rw [List.forall_mem_cons] at hspelled
    simp only [itemCharacters, List.length_append, List.length_cons] at hsteps
    rw [itemCharacters, List.append_assoc, List.cons_append]
    · exact items?_cons
        (value?_characters item steps _ hspelled.1 (by omega) (follows_cons (by decide) _))
        (items?_characters (next :: items) steps rest (by simp) hspelled.2 (by omega))
    · simp

theorem fields?_characters (fields : List (Option String × Json)) (steps : Nat) (rest : List Char)
    (hne : fields ≠ []) (hspelled : ∀ field ∈ fields, field.2.Spelled)
    (hsteps : (fieldCharacters fields).length < steps) :
    fields? steps (fieldCharacters fields ++ '\x7d' :: rest) = some (fields, rest) := by
  obtain ⟨steps, rfl⟩ := Nat.exists_eq_add_one.mpr (Nat.zero_lt_of_lt hsteps)
  match fields with
  | [(key, value)] =>
    rw [List.forall_mem_singleton] at hspelled
    simp only [fieldCharacters, List.length_append, List.length_cons] at hsteps ⊢
    rw [List.append_assoc, List.cons_append]
    exact fields?_last key (value?_characters value steps _ hspelled (by omega)
      (follows_cons (by decide) rest))
  | (key, value) :: next :: fields =>
    rw [List.forall_mem_cons] at hspelled
    simp only [fieldCharacters, List.length_append, List.length_cons] at hsteps
    rw [fieldCharacters, List.append_assoc, List.append_assoc, List.cons_append, List.cons_append]
    · exact fields?_cons key
        (value?_characters value steps _ hspelled.1 (by omega) (follows_cons (by decide) _))
        (fields?_characters (next :: fields) steps rest (by simp) hspelled.2 (by omega))
    · simp

end

end Parser

/-- A value whose numbers are spelled as numbers is read back from its text. -/
theorem parse_render {value : Json} (h : value.Spelled) :
    parse value.render = some value := by
  have hsteps : value.characters.length ≤ 2 * value.characters.length + 2 := by omega
  have hread := Parser.value?_characters value _ [] h hsteps Parser.follows_nil
  rw [List.append_nil] at hread
  simp only [parse, render, String.length_ofList, String.toList_ofList, hread]
  rfl

end ElementLint.Json
