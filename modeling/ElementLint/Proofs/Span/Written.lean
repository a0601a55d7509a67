import ElementLint.Span.StartTag

/-!
# Written forests

A `Written.Forest` is a run of elements, texts and comments as somebody writes it down, with the
conditions under which a scan cannot take one part for another: the names are plain and have no
rules of their own, a value has no quote of its kind inside it, a text has no `<` and a comment does
not hold its own end. `Written.Forest.write` is the text of a forest, and `Written.Forest.spans`
tells where in that text the elements stand. What is said of tags alone is said of every plain name
(`Written.IsPlainName`), since other writers use them too.
-/

namespace ElementLint.Span.Written

open Text

/-- The characters of names: small letters, digits and hyphens. -/
def isNameChar (c : Char) : Bool :=
  c.isLower || c.isDigit || c == '-'

/-- The name of an element that ends no other one and has any content. -/
structure ElementName where
  first : Char
  rest : List Char
  first_lower : first.isLower = true
  rest_chars : rest.all isNameChar = true
  not_void : isVoid (String.ofList (first :: rest)) = false
  not_rawText : isRawText (String.ofList (first :: rest)) = false
  no_impliedEnd : impliedEnd (String.ofList (first :: rest)) = none

/-- The name of an attribute. -/
structure AttributeName where
  text : List Char
  ne_nil : text ≠ []
  text_chars : text.all isNameChar = true

/-- A value in quotes. -/
structure Value where
  quote : Char
  text : List Char
  quote_eq : quote = '"' ∨ quote = '\''
  notMem : quote ∉ text

/-- An attribute with or without a value. -/
structure Attribute where
  name : AttributeName
  value : Option Value

/-- A run of siblings. -/
inductive Forest where
  | nil
  | text (run : List Char) (noTag : '<' ∉ run) (rest : Forest)
  | comment (run : List Char) (noEnd : ¬ ['-', '-', '>'] <:+: run) (rest : Forest)
  | element (name : ElementName) (attributes : List Attribute) (children rest : Forest)

/-! ### Writing -/

/-- The characters of an element name. -/
def ElementName.text (name : ElementName) : List Char :=
  name.first :: name.rest

/-- Writes a value with its quotes. -/
def Value.write (value : Value) : List Char :=
  value.quote :: (value.text ++ [value.quote])

/-- Writes an attribute after a space. -/
def Attribute.write (entry : Attribute) : List Char :=
  ' ' :: (entry.name.text ++
    match entry.value with
    | none => []
    | some value => '=' :: value.write)

/-- Writes some attributes one after the other. -/
def writeAttributes (attributes : List Attribute) : List Char :=
  attributes.flatMap Attribute.write

/-- Writes a start tag. -/
def startTag (name : ElementName) (attributes : List Attribute) : List Char :=
  '<' :: (name.text ++ (writeAttributes attributes ++ ['>']))

/-- Writes an end tag. -/
def endTag (name : ElementName) : List Char :=
  '<' :: '/' :: (name.text ++ ['>'])

/-- Writes a comment. -/
def writeComment (run : List Char) : List Char :=
  ['<', '!', '-', '-'] ++ (run ++ ['-', '-', '>'])

/-- Writes a forest. -/
def Forest.write : Forest → List Char
  | .nil => []
  | .text run _ rest => run ++ rest.write
  | .comment run _ rest => writeComment run ++ rest.write
  | .element name attributes children rest =>
    startTag name attributes ++ (children.write ++ (endTag name ++ rest.write))

/-! ### Places in what is written -/

/-- Where an attribute stands that is written at a place. -/
def Attribute.span (place : Nat) (entry : Attribute) : AttributeSpan where
  name := String.ofList entry.name.text
  value := entry.value.map fun value =>
    let start := place + byteSize (' ' :: (entry.name.text ++ ['=']))
    ⟨start, start + byteSize value.write⟩

/-- Where attributes stand that are written from a place on. -/
def attributeSpans : Nat → List Attribute → List AttributeSpan
  | _, [] => []
  | place, entry :: rest =>
    entry.span place :: attributeSpans (place + byteSize entry.write) rest

/-- Where an element stands whose start tag is written at a place and whose end tag ends at
another one. -/
def elementSpan (place : Nat) (name : ElementName) (attributes : List Attribute) (stop : Nat) :
    TagSpan where
  name := String.ofList name.text
  start := place
  nameEnd := place + byteSize ('<' :: name.text)
  startTagEnd := place + byteSize (startTag name attributes)
  stop
  attributes := attributeSpans (place + byteSize ('<' :: name.text)) attributes

/-- Where the elements of a forest stand that is written at a place, in preorder. -/
def Forest.spans (place : Nat) : Forest → List TagSpan
  | .nil => []
  | .text run _ rest => rest.spans (place + byteSize run)
  | .comment run _ rest => rest.spans (place + byteSize (writeComment run))
  | .element name attributes children rest =>
    let inside := place + byteSize (startTag name attributes)
    let stop := inside + byteSize children.write + byteSize (endTag name)
    elementSpan place name attributes stop :: (children.spans inside ++ rest.spans stop)

/-! ### Tags of any plain name -/

/-- A name that is read as it is written, of an element that may have content. -/
structure IsPlainName (name : List Char) : Prop where
  starts : ∃ first rest, name = first :: rest ∧ first.isLower = true
  chars : ∀ c ∈ name, isNameChar c = true
  not_void : isVoid (String.ofList name) = false
  not_rawText : isRawText (String.ofList name) = false

/-- Writes a start tag of any name. -/
def openingTag (name : List Char) (attributes : List Attribute) : List Char :=
  '<' :: (name ++ (writeAttributes attributes ++ ['>']))

/-- Writes an end tag of any name. -/
def closingTag (name : List Char) : List Char :=
  '<' :: '/' :: (name ++ ['>'])

/-- Where an element of any name stands whose start tag is written at a place and which ends at
another one. -/
def tagSpan (place : Nat) (name : List Char) (attributes : List Attribute) (stop : Nat) :
    TagSpan where
  name := String.ofList name
  start := place
  nameEnd := place + byteSize ('<' :: name)
  startTagEnd := place + byteSize (openingTag name attributes)
  stop
  attributes := attributeSpans (place + byteSize ('<' :: name)) attributes

end ElementLint.Span.Written
