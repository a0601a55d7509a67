import ElementLint.Markup.Token.LineEnd

/-!
# Comments and declarations

Reading of what stands between `<!` or `<?` and the `>` that ends it.
-/

namespace ElementLint.Markup

open Text

/-- Cuts a text at the first place where `stop` holds of what follows; without such a place the
second part is empty. -/
def cutWhere (stop : List Char → Bool) : List Char → List Char × List Char
  | [] => ([], [])
  | c :: text =>
    if stop (c :: text) then ([], c :: text)
    else
      let (front, back) := cutWhere stop text
      (c :: front, back)

/-- Removes the beginning of an end of comment that the end of the text cut off. -/
def dropOpenEnd (text : List Char) : List Char :=
  match text.reverse with
  | '!' :: '-' :: '-' :: rest => rest.reverse
  | '-' :: '-' :: rest => rest.reverse
  | '-' :: rest => rest.reverse
  | _ => text

/-- Cuts the text of a comment off what follows `<!--`. It ends at `-->` or `--!>`; a comment that
starts with `>` or `->` is empty and ends there. -/
def cutComment (text : List Char) : String × List Char :=
  match text with
  | '>' :: rest => ("", rest)
  | '-' :: '>' :: rest => ("", rest)
  | _ =>
    let ends := fun rest => "-->".toList.isPrefixOf rest || "--!>".toList.isPrefixOf rest
    match cutWhere ends text with
    | (body, '-' :: '-' :: '>' :: rest) => (String.ofList (literalText body), rest)
    | (body, '-' :: '-' :: '!' :: '>' :: rest) => (String.ofList (literalText body), rest)
    | (body, rest) => (String.ofList (literalText (dropOpenEnd body)), rest)

/-- Cuts a comment that ends at the first `>`. -/
def cutBogusComment (text : List Char) : String × List Char :=
  (String.ofList (literalText (text.takeWhile (· != '>'))), (text.dropWhile (· != '>')).drop 1)

/-- The identifier in quotes at the start of a text and what follows it; whether the quote is
closed. -/
def cutQuoted (quote : Char) (text : List Char) : String × Bool × List Char :=
  let id := String.ofList (literalText (text.takeWhile (· != quote)))
  match text.dropWhile (· != quote) with
  | [] => (id, false, [])
  | _ :: rest => (id, true, rest)

/-- Reads the system identifier that follows the public one, if there is any. -/
def doctypeAfterPublic (name publicId : String) (text : List Char) : Doctype :=
  match text.dropWhile isTagBlank with
  | [] => ⟨some name, some publicId, none, false⟩
  | quote :: rest =>
    if quote = '"' ∨ quote = '\'' then
      let (systemId, closed, _) := cutQuoted quote rest
      ⟨some name, some publicId, some systemId, !closed⟩
    else ⟨some name, some publicId, none, true⟩

/-- Reads what follows the name of a document type. -/
def doctypeAfterName (name : String) (text : List Char) : Doctype :=
  let identifier := (text.drop 6).dropWhile isTagBlank
  if text.isEmpty then ⟨some name, none, none, false⟩
  else if lower (text.take 6) = "public".toList then
    match identifier with
    | [] => ⟨some name, none, none, true⟩
    | quote :: rest =>
      if quote = '"' ∨ quote = '\'' then
        match cutQuoted quote rest with
        | (publicId, true, rest) => doctypeAfterPublic name publicId rest
        | (publicId, false, _) => ⟨some name, some publicId, none, true⟩
      else ⟨some name, none, none, true⟩
  else if lower (text.take 6) = "system".toList then
    match identifier with
    | [] => ⟨some name, none, none, true⟩
    | quote :: rest =>
      if quote = '"' ∨ quote = '\'' then
        let (systemId, closed, _) := cutQuoted quote rest
        ⟨some name, none, some systemId, !closed⟩
      else ⟨some name, none, none, true⟩
  else ⟨some name, none, none, true⟩

/-- The document type that is declared between `<!doctype` and the next `>`. -/
def Doctype.ofBody (starts : List Nat) (body : List Char) : Doctype :=
  match body.dropWhile isTagBlank with
  | [] => ⟨none, none, none, true⟩
  | text =>
    let name := String.ofList (withoutNull (lower (text.takeWhile (fun c => !isTagBlank c))))
    let (lost, rest) := passBlanks starts false (text.dropWhile (fun c => !isTagBlank c))
    if lost.all isTagBlank then doctypeAfterName name rest else ⟨some name, none, none, true⟩

/-- Cuts a document type off what follows `<!doctype`. -/
def cutDoctype (starts : List Nat) (text : List Char) : Doctype × List Char :=
  let after := text.dropWhile (· != '>')
  let doctype := Doctype.ofBody (starts.map (· - after.length)) (text.takeWhile (· != '>'))
  match after with
  | [] => ({ doctype with broken := true }, [])
  | _ :: rest => (doctype, rest)

/-- Cuts the text of a character data section off what follows its opening mark. -/
def cutCharacterData (text : List Char) : List Char × List Char :=
  let (body, rest) := cutWhere ("]]>".toList.isPrefixOf ·) text
  (unifyLines body, rest.drop 3)

end ElementLint.Markup
