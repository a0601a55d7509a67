/-!
# JSON values

A `Json` is a value as its text spells it: a number is kept as it is written, an object keeps all
its fields in order, also those of one key. A string may be broken: its text may hold half of a
surrogate pair, for which no character stands; such a string is `none`.
-/

namespace ElementLint

/-- A JSON value. -/
inductive Json where
  | null
  | bool (value : Bool)
  /-- A number by its spelling. -/
  | number (spelling : String)
  | string (text : Option String)
  | array (items : List Json)
  | object (fields : List (Option String × Json))
  deriving Repr, Inhabited

namespace Json

/-- The string of a text. -/
def text (value : String) : Json := .string (some value)

/-- A natural number. -/
def nat (n : Nat) : Json := .number (toString n)

/-- The object with the given fields. -/
def ofFields (fields : List (String × Json)) : Json :=
  .object (fields.map fun field => (some field.1, field.2))

end Json

end ElementLint
