import ElementLint.Markup.Token.Basic
import ElementLint.Markup.Token.Declaration
import ElementLint.Text.Blank

/-!
# Text that is not markup

The content of some elements is text up to their end tag. Inside a script an end tag does not count
between `<!--` followed by a `<script` tag and the next `</script` tag or `-->`.
-/

namespace ElementLint.Markup

open Text

/-- Whether a text starts with a name, in any case of its letters, that a blank, a slash or `>`
ends. -/
def startsWithWord (word : List Char) (text : List Char) : Bool :=
  word.isPrefixOf (lower (text.take word.length)) &&
    (text.drop word.length).head?.any (fun c => isTagBlank c || c == '/' || c == '>')

/-- Whether a text starts with an end tag of the given name. -/
def startsWithEndTag (name : List Char) : List Char → Bool
  | '<' :: '/' :: text => startsWithWord name text
  | _ => false

/-- Cuts the text of an element off; what is left starts with its end tag. -/
def cutRawText (name : String) (text : List Char) : List Char × List Char :=
  cutWhere (startsWithEndTag name.toList) text

/-- Where in a script a character stands. The number counts the hyphens right before it, two at
most. -/
inductive ScriptState where
  | plain
  /-- After `<!--`. -/
  | commented (hyphens : Nat)
  /-- After `<!--` and a `<script` tag. -/
  | nested (hyphens : Nat)
  deriving DecidableEq, Repr

/-- The state after the first character of a text. -/
def ScriptState.next : ScriptState → List Char → ScriptState
  | state, [] => state
  | .plain, c :: text =>
    if c = '<' ∧ "!--".toList.isPrefixOf text then .commented 0 else .plain
  | .commented n, c :: text =>
    if c = '-' then .commented (min 2 (n + 1))
    else if c = '>' ∧ n = 2 then .plain
    else if c = '<' ∧ startsWithWord "script".toList text then .nested 0
    else .commented 0
  | .nested n, c :: text =>
    if c = '-' then .nested (min 2 (n + 1))
    else if c = '>' ∧ n = 2 then .plain
    else if c = '<' ∧ startsWithWord "/script".toList text then .commented 0
    else .nested 0

/-- Cuts the text of a script off; what is left starts with its end tag. -/
def cutScript : ScriptState → List Char → List Char × List Char
  | _, [] => ([], [])
  | state, c :: text =>
    -- an end tag counts everywhere but inside a nested script
    match state, startsWithEndTag "script".toList (c :: text) with
    | .plain, true => ([], c :: text)
    | .commented _, true => ([], c :: text)
    | _, _ =>
      let (front, back) := cutScript (state.next (c :: text)) text
      (c :: front, back)

end ElementLint.Markup
