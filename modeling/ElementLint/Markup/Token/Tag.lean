import ElementLint.Markup.CharacterReference
import ElementLint.Markup.Token.LineEnd

/-!
# Reading tags

A tag is a name and attributes up to `>`. Slashes between attributes are skipped; the slash right
before the `>` closes the tag. Of two attributes of one name the first is kept. A tag that the end
of the text cuts off is no tag at all.
-/

namespace ElementLint.Markup

open Text

/-- The name that a stretch of a tag spells: ASCII capitals are made small and NULs replaced. -/
def tagWord (text : List Char) : String :=
  String.ofList (withoutNull (lower text))

/-- The value that a stretch of a tag spells. -/
def attributeValue (text : List Char) : String :=
  String.ofList (Piece.characters (decode true (withoutNull text)))

/-- Cuts an attribute value without quotes off a text after taking some characters. It ends at a
blank or `>`; a carriage return that is dropped after a reference does not end it. -/
def cutBare : Nat → List Char → List Char × List Char
  | _, [] => ([], [])
  | taken + 1, c :: text =>
    let (value, rest) := cutBare taken text
    (c :: value, rest)
  | 0, c :: text =>
    if isTagBlank c || c == '>' then ([], c :: text)
    else
      let (value, rest) := cutBare (if c = '&' then droppedReturn true text else 0) text
      (c :: value, rest)

/-- Cuts an attribute value off a text that starts right after the equals sign and blanks. -/
def cutValue : List Char → String × List Char
  | '"' :: text =>
    (attributeValue (text.takeWhile (· != '"')), (text.dropWhile (· != '"')).drop 1)
  | '\'' :: text =>
    (attributeValue (text.takeWhile (· != '\'')), (text.dropWhile (· != '\'')).drop 1)
  | text =>
    let (value, rest) := cutBare 0 text
    (attributeValue value, rest)

/-- Cuts an attribute off a text that starts with its name. The first character belongs to the name
whatever it is. -/
def cutAttribute (starts : List Nat) (first : Char) (text : List Char) : Attribute × List Char :=
  let inName := fun c => !isTagBlank c && c != '/' && c != '=' && c != '>'
  let name := tagWord (first :: text.takeWhile inName)
  match (text.dropWhile inName).dropWhile isTagBlank with
  | '=' :: rest =>
    let (value, rest) := cutValue (passBlanks starts false rest).2
    (⟨name, value⟩, rest)
  | rest => (⟨name, ""⟩, rest)

/-- The attributes of a tag, whether a slash closes it, and the text after its `>`. The first
argument bounds the number of steps; the length of the text is enough. -/
def cutAttributes (starts : List Nat) :
    Nat → List Attribute → List Char → Option (List Attribute × Bool × List Char)
  | 0, _, _ => none
  | _ + 1, _, [] => none
  | _ + 1, found, '>' :: text => some (found.reverse, false, text)
  | _ + 1, found, '/' :: '>' :: text => some (found.reverse, true, text)
  | steps + 1, found, c :: text =>
    if isTagBlank c || c == '/' then cutAttributes starts steps found text
    else
      -- of two attributes of one name the first is kept
      let (new, rest) := cutAttribute starts c text
      if found.any (·.name == new.name) then cutAttributes starts steps found rest
      else cutAttributes starts steps (new :: found) rest

/-- Cuts a tag off a text that starts with its name. -/
def cutTag (starts : List Nat) (text : List Char) : Option (Tag × List Char) :=
  let inName := fun c => !isTagBlank c && c != '/' && c != '>'
  let name := tagWord (text.takeWhile inName)
  (cutAttributes starts (text.length + 1) [] (text.dropWhile inName)).map
    fun (attributes, selfClosing, rest) => (⟨name, attributes, selfClosing⟩, rest)

end ElementLint.Markup
