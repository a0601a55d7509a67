import ElementLint.Markup.Token.Basic
import ElementLint.Text.Blank

/-!
# Ends of lines

A line ends with a line feed, a carriage return or both. In the tree an end of line is always a line
feed: `unifyLines` writes it so. Inside a tag or a declaration an end of line is a blank, and
`passBlanks` says how the blanks in front of an attribute value or of the keyword of a document type
are passed. Where it matters that a text is taken in part by part, `starts` lists the lengths that
the text has left where a part starts.
-/

namespace ElementLint.Markup

open Text

/-- A text in which every end of line is a line feed. -/
def unifyLines : List Char → List Char
  | [] => []
  | '\r' :: '\n' :: rest => '\n' :: unifyLines rest
  | '\r' :: rest => '\n' :: unifyLines rest
  | c :: rest => c :: unifyLines rest

/-- What a stretch of text without references says: every end of line is a line feed and every NUL
is replaced. -/
def literalText (text : List Char) : List Char :=
  withoutNull (unifyLines text)

/-- Passes the blanks at the start of a text; the flag says whether a carriage return stands right
before it. The line feed that ends a line together with a carriage return is passed only with the
character after it in the same part, whatever that is: these characters come first in the result,
then the rest of the text. -/
def passBlanks (starts : List Nat) : Bool → List Char → List Char × List Char
  | _, [] => ([], [])
  | true, ['\n'] => ([], [])
  | true, '\n' :: c :: text =>
    if starts.contains (text.length + 1) then passBlanks starts false (c :: text)
    else
      let (lost, rest) := passBlanks starts (c == '\r') text
      (c :: lost, rest)
  | _, c :: text =>
    if isTagBlank c then passBlanks starts (c == '\r') text else ([], c :: text)

end ElementLint.Markup
