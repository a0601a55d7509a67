import ElementLint.Markup.Builder.Foreign
import ElementLint.Markup.Doctype
import ElementLint.Markup.Source
import ElementLint.Markup.Token.Next

/-!
# Parsing markup

`parse` reads a text of markup into a forest. Every text has a tree: what is missing is supplied and
what is misplaced is moved or dropped.
-/

namespace ElementLint.Markup

namespace Builder

/-- Follows the rules for a token until it is used up. The first argument bounds the number of
rules; every rule that looks at the token again closes an element or leaves its mode for good. -/
def settle : Nat → Token → Builder → Builder
  | 0, _, b => b
  | rounds + 1, token, b =>
    let result := b.step token
    if result.again then settle rounds token result.builder else result.builder

/-- Adds a document type, if it comes first. -/
def addDoctype (b : Builder) (doctype : Doctype) : Builder :=
  if b.mode = .initial then
    let (draft, id) := b.draft.create (.leaf .doctype)
    { b with
      draft := draft.insert (.inside Draft.document) id
      oldDocument := doctype.isOld
      mode := .beforeHtml }
  else b

/-- Adds a token. A line feed right after the start tag of some elements is dropped. -/
def add (b : Builder) (token : Token) : Builder :=
  let skip := b.skipNewline
  let b := { b with skipNewline := false, content := .markup }
  let rounds := 8 * b.opened.length + 16
  match token with
  | .fault => b
  | .doctype doctype => b.addDoctype doctype
  | .blank run =>
    match run.toList with
    | '\n' :: rest =>
      -- only the first line feed is dropped
      if !skip then settle rounds token b
      else if rest.isEmpty then b
      else settle rounds (.blank (String.ofList rest)) b
    | _ => settle rounds token b
  | _ => settle rounds token b

/-- Reads a text to its end. The first argument bounds the number of steps; one more than the length
of the text is enough. The second one lists the lengths that the text has left where a part of the
source starts. -/
def read : Nat → List Nat → List Char → Builder → Builder
  | 0, _, _, b => b
  | _ + 1, _, [], b => b.add .endOfText
  | steps + 1, starts, c :: rest, b =>
    let (tokens, rest) := Token.next starts b.content b.inForeign (c :: rest)
    -- what follows a script is taken in anew, unless that happens there anyway
    let anew := b.content == .script && !starts.contains rest.length
    let rest := if anew then dropMark rest else rest
    read steps starts rest (tokens.foldl add { b with content := .markup })

end Builder

/-- The forest of a text of markup. -/
def parse (text : List Char) : Forest :=
  let source := Source.ofText text
  (Builder.start.read (source.text.length + 1) source.starts source.text).draft.toForest

end ElementLint.Markup
