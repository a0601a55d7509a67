import ElementLint.Json.Basic
import ElementLint.Text.Digit

/-!
# Writing JSON

`Json.render` writes a value without blanks. In strings only quotes, backslashes and control
characters are escaped, the latter by a letter where there is one and by four digits elsewhere.
-/

namespace ElementLint.Json

/-- A character inside a string. -/
def escape (c : Char) : List Char :=
  match c with
  | '"' => ['\\', '"']
  | '\\' => ['\\', '\\']
  | '\x08' => ['\\', 'b']
  | '\x0c' => ['\\', 'f']
  | '\n' => ['\\', 'n']
  | '\r' => ['\\', 'r']
  | '\t' => ['\\', 't']
  | _ =>
    if c.toNat < 0x20 then
      ['\\', 'u', '0', '0', Text.hexDigit (c.toNat / 16), Text.hexDigit (c.toNat % 16)]
    else [c]

/-- A string in quotes. A broken string is written as one half of a surrogate pair. -/
def quote : Option String → List Char
  | some text => '"' :: text.toList.flatMap escape ++ ['"']
  | none => "\"\\ud800\"".toList

mutual

/-- The characters of a value. -/
def characters : Json → List Char
  | .null => "null".toList
  | .bool true => "true".toList
  | .bool false => "false".toList
  | .number spelling => spelling.toList
  | .string text => quote text
  | .array items => '[' :: itemCharacters items ++ [']']
  | .object fields => '\x7b' :: fieldCharacters fields ++ ['\x7d']

/-- The characters of the items of an array. -/
def itemCharacters : List Json → List Char
  | [] => []
  | [item] => item.characters
  | item :: rest => item.characters ++ ',' :: itemCharacters rest

/-- The characters of the fields of an object. -/
def fieldCharacters : List (Option String × Json) → List Char
  | [] => []
  | [(key, value)] => quote key ++ ':' :: value.characters
  | (key, value) :: rest => quote key ++ ':' :: value.characters ++ ',' :: fieldCharacters rest

end

/-- The text of a value. -/
def render (value : Json) : String :=
  String.ofList value.characters

end ElementLint.Json
