import ElementLint.Markup.Token.Declaration
import ElementLint.Markup.Token.RawText
import ElementLint.Markup.Token.Tag

/-!
# The next tokens of a text

`Token.next` cuts the first construct off a text: a stretch of characters, a tag, a comment or a
declaration, or, in an element whose content is text, that content together with the end tag.
-/

namespace ElementLint.Markup

open Text

namespace Token

/-- The token of a run of characters that are all blank or all not blank. -/
def ofRun (blanks : Bool) (run : List Char) : Token :=
  if blanks then .blank (String.ofList run) else .text (String.ofList run)

/-- The tokens of some pieces of text after an unfinished run, which is given in reverse. -/
def ofPiecesAfter : Bool → List Char → List Piece → List Token
  | blanks, run, [] => flush blanks run
  | blanks, run, .fault :: pieces => flush blanks run ++ .fault :: ofPiecesAfter true [] pieces
  | blanks, run, .char c :: pieces =>
    if c = '\x00' then flush blanks run ++ .null :: ofPiecesAfter true [] pieces
    else if isTagBlank c = blanks then ofPiecesAfter blanks (c :: run) pieces
    else flush blanks run ++ ofPiecesAfter (isTagBlank c) [c] pieces
where
  /-- The token of a run in reverse, if the run is not empty. -/
  flush (blanks : Bool) (run : List Char) : List Token :=
    if run.isEmpty then [] else [ofRun blanks run.reverse]

/-- The tokens of some pieces of text. -/
def ofPieces (pieces : List Piece) : List Token :=
  ofPiecesAfter true [] pieces

/-- The tokens of a text without references. -/
def ofCharacters (input : List Char) : List Token :=
  ofPieces (input.map .char)

/-- The end tag at the start of a text that ends the content of an element. -/
def closing (starts : List Nat) (input : List Char) : List Token × List Char :=
  match cutTag starts (input.drop 2) with
  | some (tag, rest) => ([.endTag tag.name], rest)
  | none => ([], [])

/-- What follows `<!`. -/
def declaration (starts : List Nat) (characterData : Bool) (input : List Char) :
    List Token × List Char :=
  if "--".toList.isPrefixOf input then
    let (body, rest) := cutComment (input.drop 2)
    ([.comment body], rest)
  else if "doctype".toList.isPrefixOf (lower (input.take 7)) then
    let (declared, rest) := cutDoctype starts (input.drop 7)
    ([.doctype declared], rest)
  else if characterData && "[CDATA[".toList.isPrefixOf input then
    let (body, rest) := cutCharacterData (input.drop 7)
    (ofCharacters body, rest)
  else
    let (body, rest) := cutBogusComment input
    ([.comment body], rest)

/-- What follows `<`. -/
def afterLess (starts : List Nat) (characterData : Bool) : List Char → List Token × List Char
  | '!' :: input => declaration starts characterData input
  | '/' :: [] => ([.text "</"], [])
  | '/' :: '>' :: input => ([.fault], input)
  | '/' :: c :: input =>
    if c.isAlpha then
      match cutTag starts (c :: input) with
      | some (tag, rest) => ([.endTag tag.name], rest)
      | none => ([], [])
    else
      let (body, rest) := cutBogusComment (c :: input)
      ([.comment body], rest)
  | '?' :: input =>
    let (body, rest) := cutBogusComment ('?' :: input)
    ([.comment body], rest)
  | [] => ([.text "<"], [])
  | c :: input =>
    if c.isAlpha then
      match cutTag starts (c :: input) with
      | some (tag, rest) => ([.startTag tag], rest)
      | none => ([], [])
    else ([.text "<"], c :: input)

/-- The first tokens of a text that is not at its end, and the text after them. `starts` lists the
lengths that the text has left where a part of it starts; `characterData` says whether character
data sections are known in this place. -/
def next (starts : List Nat) (mode : ContentMode) (characterData : Bool) (input : List Char) :
    List Token × List Char :=
  match mode with
  | .markup =>
    match input with
    | '<' :: input => afterLess starts characterData input
    | input => (ofPieces (decode false (input.takeWhile (· != '<'))), input.dropWhile (· != '<'))
  | .referenceText name =>
    let (body, rest) := cutRawText name input
    let (tag, rest) := closing starts rest
    (ofPieces (decode false (withoutNull body)) ++ tag, rest)
  | .rawText name =>
    let (body, rest) := cutRawText name input
    let (tag, rest) := closing starts rest
    (ofCharacters (literalText body) ++ tag, rest)
  | .script =>
    let (body, rest) := cutScript .plain input
    let (tag, rest) := closing starts rest
    (ofCharacters (literalText body) ++ tag, rest)
  | .plainText => (ofCharacters (literalText input), [])

end Token

end ElementLint.Markup
