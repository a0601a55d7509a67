/-!
# Tokens of markup

This module defines the tokens into which a text of markup is cut, and the ways in which text is
read (`ContentMode`).

A run of character tokens is cut where blanks and other characters meet, because many places of a
tree drop or keep blanks on their own: `Token.blank` holds blanks only and `Token.text` none.
-/

namespace ElementLint.Markup

/-- An attribute of a start tag. -/
structure Attribute where
  name : String
  value : String
  deriving DecidableEq, Repr, Inhabited

/-- A start tag or an end tag. -/
structure Tag where
  name : String
  attributes : List Attribute
  /-- Whether the tag is closed by a slash. -/
  selfClosing : Bool
  deriving DecidableEq, Repr, Inhabited

/-- A document type declaration. -/
structure Doctype where
  name : Option String
  publicId : Option String
  systemId : Option String
  /-- Whether the declaration is broken in a way that asks for the rules of old documents. -/
  broken : Bool
  deriving DecidableEq, Repr, Inhabited

/-- A piece of markup. -/
inductive Token where
  | doctype (doctype : Doctype)
  | startTag (tag : Tag)
  | endTag (name : String)
  | comment (text : String)
  /-- A run of blanks. -/
  | blank (run : String)
  /-- A run of characters none of which is blank. -/
  | text (run : String)
  /-- A NUL character. -/
  | null
  /-- A fault of the markup that leaves nothing in the tree; a line feed after it is kept. -/
  | fault
  | endOfText
  deriving DecidableEq, Repr, Inhabited

/-- How the text that follows is read. -/
inductive ContentMode where
  /-- Markup. -/
  | markup
  /-- Text with character references, up to the end tag of the given name. -/
  | referenceText (name : String)
  /-- Plain text up to the end tag of the given name. -/
  | rawText (name : String)
  /-- A script, up to an end tag that is not inside one of its commented parts. -/
  | script
  /-- Plain text up to the end. -/
  | plainText
  deriving DecidableEq, Repr, Inhabited

/-- The character that stands for what cannot be shown. -/
def replacement : Char := '\ufffd'

/-- A text in which every NUL is replaced. -/
def withoutNull (text : List Char) : List Char :=
  text.map (fun c => if c = '\x00' then replacement else c)

end ElementLint.Markup
