import ElementLint.Json.Basic
import ElementLint.Text.Digit

/-!
# Records in JSON

A record is written as an object; it may also be written as the array of its fields in their order.
`Json.record?` finds the values of the fields of a record either way. In an object, keys that are no
fields are passed over, and a field must not be there twice.
-/

namespace ElementLint.Json

/-- The values of the named fields of a record; a field that is left out is `none`. -/
def record? (names : List String) : Json → Option (List (Option Json))
  | .object fields => do
    guard (fields.all (·.1.isSome))
    names.mapM fun name =>
      match fields.filter (·.1 == some name) with
      | [] => some none
      | [field] => some (some field.2)
      | _ => none
  | .array items =>
    if items.length ≤ names.length then
      some (items.map some ++ List.replicate (names.length - items.length) none)
    else none
  | _ => none

/-- The keys of an object; an array has none. -/
def keys : Json → List (Option String)
  | .object fields => fields.map (·.1)
  | _ => []

/-- The text of a string. -/
def text? : Json → Option String
  | .string text => text
  | _ => none

/-- A natural number of at most 64 bits. -/
def nat? : Json → Option Nat
  | .number spelling =>
    let n := Text.ofDigits 10 spelling.toList
    if spelling.toList.all Char.isDigit && n < UInt64.size then some n else none
  | _ => none

/-- The items of an array. -/
def items? : Json → Option (List Json)
  | .array items => some items
  | _ => none

/-- A value that may be null. -/
def nullable {α : Type} (decode : Json → Option α) : Json → Option (Option α)
  | .null => some none
  | value => (decode value).map some

/-- A list of values. -/
def listOf? {α : Type} (decode : Json → Option α) (value : Json) : Option (List α) :=
  value.items?.bind (·.mapM decode)

/-- The value of a field that must be there. -/
def required {α : Type} (decode : Json → Option α) (field : Option Json) : Option α :=
  field.bind decode

/-- The value of a field that may be left out. -/
def optional {α : Type} (default : α) (decode : Json → Option α) : Option Json → Option α
  | none => some default
  | some value => decode value

end ElementLint.Json
