import ElementLint.Selector.Basic
import ElementLint.Text.Alphanumeric

/-!
# Reading selectors

`Selector.parse` reads a selector. Its alternatives are separated by commas wherever these stand. A
piece of two compound selectors with a combinator between them is reported as such; any other piece
that is not one compound selector is unparseable. The first piece at fault decides.
-/

namespace ElementLint.Selector

open Text

/-- The characters of an identifier. -/
def inIdentifier (c : Char) : Bool :=
  isAlphanumeric c || c == '-' || c == '_'

/-- Reads an identifier. -/
def identifier? (text : List Char) : Option (String × List Char) :=
  let name := text.takeWhile inIdentifier
  if name.isEmpty then none else some (String.ofList name, text.dropWhile inIdentifier)

/-- Reads the value of an attribute test: an identifier, or any text in quotes. -/
def value? (text : List Char) : Option (String × List Char) :=
  match text with
  | [] => none
  | quote :: rest =>
    if quote = '"' ∨ quote = '\'' then
      match rest.dropWhile (· != quote) with
      | [] => none
      | _ :: after => some (String.ofList (rest.takeWhile (· != quote)), after)
    else identifier? text

/-- Reads an attribute test after its opening bracket. -/
def attributeTest? (text : List Char) : Option (AttributeTest × List Char) :=
  match identifier? (text.dropWhile isBlank) with
  | none => none
  | some (name, rest) =>
    match rest.dropWhile isBlank with
    | ']' :: rest => some (.present name, rest)
    | '=' :: rest =>
      match value? (rest.dropWhile isBlank) with
      | none => none
      | some (value, rest) =>
        match rest.dropWhile isBlank with
        | ']' :: rest => some (.equals name value, rest)
        | _ => none
    | _ => none

/-- Adds the first component of a text to a compound selector; `none` if a component starts there
and cannot be read, and `some none` if none starts there. -/
def component? (compound : Compound) : List Char → Option (Option (Compound × List Char))
  | '.' :: rest =>
    (identifier? rest).map fun (name, rest) =>
      some ({ compound with classes := compound.classes ++ [name] }, rest)
  | '#' :: rest =>
    if compound.id.isSome then none
    else (identifier? rest).map fun (name, rest) => some ({ compound with id := some name }, rest)
  | '[' :: rest =>
    (attributeTest? rest).map fun (test, rest) =>
      some ({ compound with attributes := compound.attributes ++ [test] }, rest)
  | _ => some none

/-- Adds the components of a text to a compound selector, and gives what follows them. The first
argument bounds their number; the length of the text is enough. -/
def components? : Nat → Compound → List Char → Option (Compound × List Char)
  | 0, compound, text => some (compound, text)
  | count + 1, compound, text =>
    match component? compound text with
    | none => none
    | some none => some (compound, text)
    | some (some (compound, rest)) => components? count compound rest

/-- Reads a compound selector: an asterisk or the name of an element, which may be left out, and
components, of which one at least must be there if it is. -/
def compound? (text : List Char) : Option (Compound × List Char) :=
  match text with
  | '*' :: rest => components? rest.length {} rest
  | _ =>
    match identifier? text with
    | some (name, rest) => components? rest.length { element := some name } rest
    | none =>
      match components? text.length {} text with
      | none => none
      | some (compound, rest) =>
        if rest.length = text.length then none else some (compound, rest)

/-- The combinator that starts a text which goes on after a compound selector, and what follows it;
`none` if there is none. -/
def combinator? (text : List Char) : Option (Combinator × List Char) :=
  match text.dropWhile isBlank with
  | '>' :: rest => some (.child, rest.dropWhile isBlank)
  | '+' :: rest => some (.adjacent, rest.dropWhile isBlank)
  | '~' :: rest => some (.sibling, rest.dropWhile isBlank)
  | rest => if rest.length = text.length then none else some (.descendant, rest)

/-- Reads one alternative without blanks around it. -/
def alternative (text : List Char) : Except Problem Compound :=
  match compound? text with
  | none => .error .unparseable
  | some (compound, rest) =>
    if (rest.dropWhile isBlank).isEmpty then .ok compound
    else
      match combinator? rest with
      | none => .error .unparseable
      | some (combinator, rest) =>
        if (compound? rest).isSome then .error (.combinator combinator) else .error .unparseable

/-- Reads a selector. -/
def parse (selector : String) : Except Problem Selector :=
  (((pieces (· == ',') selector.toList).map trim).mapM alternative).map Selector.mk

end ElementLint.Selector
