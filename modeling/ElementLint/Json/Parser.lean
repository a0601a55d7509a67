import ElementLint.Json.Basic
import ElementLint.Text.Digit

/-!
# Reading JSON

`Json.parse` reads a text that holds one JSON value. It has no limit on how deep values may be
nested, where a reader that recurses on the stack refuses a text beyond some depth (128 is usual).
A text that is refused is refused without saying why.
-/

namespace ElementLint.Json

namespace Parser

/-- The blanks between the parts of a value. -/
def isSpace (c : Char) : Bool :=
  c == ' ' || c == '\n' || c == '\t' || c == '\r'

/-- A text without the blanks at its start. -/
def skipSpace (input : List Char) : List Char :=
  input.dropWhile isSpace

/-- The number of four hexadecimal digits. -/
def codeUnit? (a b c d : Char) : Option Nat :=
  let digits := [a, b, c, d]
  if digits.all (fun c => (Text.digitValue? c).isSome) then some (Text.ofDigits 16 digits) else none

/-- The character that an escape of two characters stands for. -/
def escaped? (c : Char) : Option Char :=
  match c with
  | '"' => some '"'
  | '\\' => some '\\'
  | '/' => some '/'
  | 'b' => some '\x08'
  | 'f' => some '\x0c'
  | 'n' => some '\n'
  | 'r' => some '\r'
  | 't' => some '\t'
  | _ => none

/-- Reads a string after its opening quote, as the numbers of its characters; an escape of four
digits gives its number as it is. -/
def codes? : List Char → Option (List Nat × List Char)
  | [] => none
  | '"' :: rest => some ([], rest)
  | '\\' :: 'u' :: a :: b :: c :: d :: rest =>
    match codeUnit? a b c d, codes? rest with
    | some unit, some (codes, rest) => some (unit :: codes, rest)
    | _, _ => none
  | '\\' :: c :: rest =>
    match escaped? c, codes? rest with
    | some c, some (codes, rest) => some (c.toNat :: codes, rest)
    | _, _ => none
  | c :: rest =>
    if c.toNat < 0x20 then none
    else (codes? rest).map fun (codes, rest) => (c.toNat :: codes, rest)

/-- Whether a number is the first half of a surrogate pair. -/
def isHigh (code : Nat) : Bool := 0xD800 ≤ code && code ≤ 0xDBFF

/-- Whether a number is the second half of a surrogate pair. -/
def isLow (code : Nat) : Bool := 0xDC00 ≤ code && code ≤ 0xDFFF

/-- The characters of some numbers, with surrogate pairs joined. -/
def characters? : List Nat → Option (List Char)
  | [] => some []
  | high :: low :: rest =>
    if isHigh high && isLow low then
      (characters? rest).map
        (Char.ofNat (0x10000 + (high - 0xD800) * 0x400 + (low - 0xDC00)) :: ·)
    else if isHigh high || isLow high then none
    else (characters? (low :: rest)).map (Char.ofNat high :: ·)
  | [code] => if isHigh code || isLow code then none else some [Char.ofNat code]

/-- Reads a string after its opening quote. -/
def string? (input : List Char) : Option (Option String × List Char) :=
  (codes? input).map fun (codes, rest) => ((characters? codes).map String.ofList, rest)

/-- Reads the digits at the start of a text, of which there must be one at least. -/
def digits? (input : List Char) : Option (List Char × List Char) :=
  let digits := input.takeWhile Char.isDigit
  if digits.isEmpty then none else some (digits, input.dropWhile Char.isDigit)

/-- Reads the part of a number before its full stop. -/
def whole? (input : List Char) : Option (List Char × List Char) :=
  match input with
  | '0' :: rest => if rest.head?.any Char.isDigit then none else some (['0'], rest)
  | _ => digits? input

/-- Reads the part of a number from its full stop on, if there is one. -/
def fraction? (input : List Char) : Option (List Char × List Char) :=
  match input with
  | '.' :: rest => (digits? rest).map fun (digits, rest) => ('.' :: digits, rest)
  | _ => some ([], input)

/-- Reads the exponent of a number, if there is one. -/
def exponent? (input : List Char) : Option (List Char × List Char) :=
  match input with
  | e :: rest =>
    if e = 'e' ∨ e = 'E' then
      match rest with
      | sign :: after =>
        if sign = '+' ∨ sign = '-' then
          (digits? after).map fun (digits, rest) => (e :: sign :: digits, rest)
        else (digits? rest).map fun (digits, rest) => (e :: digits, rest)
      | [] => none
    else some ([], input)
  | [] => some ([], input)

/-- Reads a number. -/
def number? (input : List Char) : Option (String × List Char) := do
  let (sign, input) := match input with
    | '-' :: rest => (['-'], rest)
    | _ => ([], input)
  let (whole, input) ← whole? input
  let (fraction, input) ← fraction? input
  let (exponent, input) ← exponent? input
  return (String.ofList (sign ++ whole ++ fraction ++ exponent), input)

mutual

/-- Reads a value. The first argument bounds the number of steps. -/
def value? : Nat → List Char → Option (Json × List Char)
  | 0, _ => none
  | steps + 1, input =>
    match skipSpace input with
    | 'n' :: 'u' :: 'l' :: 'l' :: rest => some (.null, rest)
    | 't' :: 'r' :: 'u' :: 'e' :: rest => some (.bool true, rest)
    | 'f' :: 'a' :: 'l' :: 's' :: 'e' :: rest => some (.bool false, rest)
    | '"' :: rest => (string? rest).map fun (text, rest) => (.string text, rest)
    | '[' :: rest =>
      match skipSpace rest with
      | ']' :: rest => some (.array [], rest)
      | rest => (items? steps rest).map fun (items, rest) => (.array items, rest)
    | '\x7b' :: rest =>
      match skipSpace rest with
      | '\x7d' :: rest => some (.object [], rest)
      | rest => (fields? steps rest).map fun (fields, rest) => (.object fields, rest)
    | rest => (number? rest).map fun (spelling, rest) => (.number spelling, rest)

/-- Reads the items of an array that is not empty, up to its closing bracket. -/
def items? : Nat → List Char → Option (List Json × List Char)
  | 0, _ => none
  | steps + 1, input =>
    match value? steps input with
    | none => none
    | some (item, rest) =>
      match skipSpace rest with
      | ']' :: rest => some ([item], rest)
      | ',' :: rest => (items? steps rest).map fun (items, rest) => (item :: items, rest)
      | _ => none

/-- Reads the fields of an object that is not empty, up to its closing brace. -/
def fields? : Nat → List Char → Option (List (Option String × Json) × List Char)
  | 0, _ => none
  | steps + 1, input =>
    match skipSpace input with
    | '"' :: rest =>
      match string? rest with
      | none => none
      | some (key, rest) =>
        match skipSpace rest with
        | ':' :: rest =>
          match value? steps rest with
          | none => none
          | some (value, rest) =>
            match skipSpace rest with
            | '\x7d' :: rest => some ([(key, value)], rest)
            | ',' :: rest =>
              (fields? steps rest).map fun (fields, rest) => ((key, value) :: fields, rest)
            | _ => none
        | _ => none
    | _ => none

end

end Parser

/-- Reads a text that holds one value. -/
def parse (input : String) : Option Json :=
  match Parser.value? (2 * input.length + 2) input.toList with
  | some (value, rest) => if (Parser.skipSpace rest).isEmpty then some value else none
  | none => none

end ElementLint.Json
