import ElementLint.Markup.ReferenceNames
import ElementLint.Text.Blank
import ElementLint.Text.Digit

/-!
# Character references

A character reference is an ampersand followed by a name (`&amp;`) or by a number (`&#38;`,
`&#x26;`). `decode` replaces the references of a text by the characters that they stand for; an
ampersand that starts no reference stands for itself. The ends of lines become line feeds on the
way, because a carriage return at which the search for a name stops is read differently from others
(`decodeAfter`).
-/

namespace ElementLint.Markup

/-- Reads an entry of the table of names. -/
def ReferenceName.ofEntry (entry : List Char) : Option ReferenceName :=
  let name := entry.takeWhile Char.isAlphanum
  match entry.drop name.length with
  | [] => none
  | mark :: codes =>
    some {
      name
      semicolonOptional := mark == '?'
      characters := (Text.pieces (· == '+') codes).map fun code =>
        Char.ofNat (Text.ofDigits 16 code) }

/-- The named character references. -/
def referenceNames : List ReferenceName :=
  referenceNameLines.flatMap (fun line => (Text.words line.toList).filterMap ReferenceName.ofEntry)

/-- What a stretch of text stands for. -/
inductive Piece where
  | char (c : Char)
  /-- A reference that is written wrongly but understood. -/
  | fault
  deriving DecidableEq, Repr

/-- What an ampersand and the characters after it stand for. -/
structure Reference where
  pieces : List Piece
  /-- The number of characters after the ampersand that belong to the reference. -/
  length : Nat
  /-- The number of characters between the reference and the carriage return that ended the search
  for a name, if one did. -/
  beforeReturn : Option Nat
  deriving Repr

/-- An ampersand that starts no reference. -/
def Reference.lone : Reference :=
  ⟨[.char '&'], 0, none⟩

/-- The characters that the numbers 128 to 159 stand for; 0 where a number stands for itself. -/
def reassignedCodes : List Nat :=
  [0x20AC, 0, 0x201A, 0x192, 0x201E, 0x2026, 0x2020, 0x2021, 0x2C6, 0x2030, 0x160, 0x2039, 0x152, 0,
    0x17D, 0, 0, 0x2018, 0x2019, 0x201C, 0x201D, 0x2022, 0x2013, 0x2014, 0x2DC, 0x2122, 0x161,
    0x203A, 0x153, 0, 0x17E, 0x178]

/-- The character that a number stands for. -/
def characterOfCode (code : Nat) : Char :=
  if code = 0 ∨ 0x10FFFF < code ∨ (0xD800 ≤ code ∧ code ≤ 0xDFFF) then '\ufffd'
  else if 0x80 ≤ code ∧ code ≤ 0x9F then
    match reassignedCodes.getD (code - 0x80) 0 with
    | 0 => Char.ofNat code
    | other => Char.ofNat other
  else Char.ofNat code

/-- Reads a numeric reference after `&#` and, for base 16, the letter x. `length` is the number of
characters read so far. -/
def numericReference (base length : Nat) (text : List Char) : Reference :=
  let digits := text.takeWhile (fun c => (Text.digitValue? c).any (· < base))
  if digits.isEmpty then .lone
  else
    let character := Piece.char (characterOfCode (Text.ofDigits base digits))
    match text.drop digits.length with
    | ';' :: _ => ⟨[character], length + digits.length + 1, none⟩
    | _ => ⟨[.fault, character], length + digits.length, none⟩

/-- The number of characters of a text that a name takes, with its semicolon if that is there. -/
def ReferenceName.matchLength (entry : ReferenceName) (text : List Char) : Option Nat :=
  if entry.name.isPrefixOf text then
    match text.drop entry.name.length with
    | ';' :: _ => some (entry.name.length + 1)
    | _ => if entry.semicolonOptional then some entry.name.length else none
  else none

/-- The name with the longest match at the start of a text, and the length of that match. -/
def longestName (text : List Char) : Option (ReferenceName × Nat) :=
  referenceNames.foldl (fun best entry =>
    match entry.matchLength text, best with
    | none, _ => best
    | some n, none => some (entry, n)
    | some n, some (_, m) => if m < n then some (entry, n) else best) none

/-- Reads a named reference. Inside an attribute value a name without a semicolon is none if a
letter, a digit or an equals sign follows. -/
def namedReference (inAttribute : Bool) (text : List Char) : Reference :=
  match longestName text with
  | none => .lone
  | some (entry, length) =>
    let followed := (text.drop length).head?.any (fun c => c == '=' || c.isAlphanum)
    -- a name that is only the start of a word in an attribute is left alone
    if inAttribute && length == entry.name.length && followed then .lone
    else ⟨entry.characters.map .char, length, none⟩

/-- The number of characters at the start of two texts that agree. -/
def agreement : List Char → List Char → Nat
  | a :: as, b :: bs => if a = b then agreement as bs + 1 else 0
  | _, _ => 0

/-- The number of characters at the start of a text that are read in search of a name: those that
begin some name and, if they hold no whole name, the letters and digits after them. -/
def searchLength (text : List Char) : Nat :=
  let known := referenceNames.foldl (fun best entry =>
    max best (agreement (entry.name ++ [';']) text)) 0
  match longestName text with
  | none => known + ((text.drop known).takeWhile Char.isAlphanum).length
  | some _ => known

/-- Reads what follows an ampersand. -/
def reference (inAttribute : Bool) : List Char → Reference
  | '#' :: 'x' :: text => numericReference 16 2 text
  | '#' :: 'X' :: text => numericReference 16 2 text
  | '#' :: text => numericReference 10 1 text
  | [] => .lone
  | c :: text =>
    if c.isAlphanum || c == '\r' then
      let found := namedReference inAttribute (c :: text)
      let searched := searchLength (c :: text)
      if ((c :: text).drop searched).head? = some '\r' then
        { found with beforeReturn := some (searched - found.length) }
      else found
    else .lone

/-- The number of characters after an ampersand up to a carriage return that is dropped, with that;
0 if none is dropped. -/
def droppedReturn (inAttribute : Bool) (text : List Char) : Nat :=
  let found := reference inAttribute text
  if found.beforeReturn = some 0 then found.length + 1 else 0

/-- Decodes a text after skipping some characters. A carriage return right after a reference is
dropped. One that ended the search for a name further on is an end of line by itself; any other one
is an end of line together with the line feed after it. -/
def decodeAfter (inAttribute : Bool) : Nat → List Char → List Piece
  | _, [] => []
  | skipped + 1, _ :: text => decodeAfter inAttribute skipped text
  | 0, c :: text =>
    if c = '&' then
      let found := reference inAttribute text
      match found.beforeReturn with
      | none => found.pieces ++ decodeAfter inAttribute found.length text
      | some 0 => found.pieces ++ decodeAfter inAttribute (found.length + 1) text
      | some n =>
        let read := (text.drop found.length).take n ++ ['\n']
        found.pieces ++ read.map .char ++ decodeAfter inAttribute (found.length + n + 1) text
    else if c = '\r' then
      .char '\n' :: decodeAfter inAttribute (if text.head? = some '\n' then 1 else 0) text
    else .char c :: decodeAfter inAttribute 0 text

/-- The pieces that a text with character references stands for. -/
def decode (inAttribute : Bool) (text : List Char) : List Piece :=
  decodeAfter inAttribute 0 text

/-- The characters among some pieces. -/
def Piece.characters (pieces : List Piece) : List Char :=
  pieces.filterMap fun
    | .char c => some c
    | .fault => none

end ElementLint.Markup
