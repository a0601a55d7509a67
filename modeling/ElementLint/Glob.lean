/-!
# Glob patterns

A `Glob` is a pattern for the names of files. In it `?` stands for any character, `*` for any text,
`[...]` for one of some characters and `[!...]` for any other. The component `**` stands for any
number of components. Slashes and full stops at the start of a component are characters like others.
-/

namespace ElementLint

namespace Glob

/-- An entry of a set of characters. -/
inductive CharRange where
  | single (c : Char)
  | between (first last : Char)
  deriving DecidableEq, Repr, Inhabited

/-- A part of a pattern. -/
inductive Part where
  | char (c : Char)
  | anyChar
  | anyText
  /-- Any number of components, each with the slash after it, or all that is left. -/
  | anyComponents
  | oneOf (ranges : List CharRange)
  | noneOf (ranges : List CharRange)
  deriving DecidableEq, Repr, Inhabited

/-- What is wrong with a pattern. -/
inductive Fault where
  | threeStars
  | partOfComponent
  | unclosedSet
  deriving DecidableEq, Repr, Inhabited

/-- A fault and its place, which counts characters. -/
structure Problem where
  place : Nat
  fault : Fault
  deriving DecidableEq, Repr, Inhabited

/-- The wording of a fault. -/
def Fault.message : Fault → String
  | .threeStars => "wildcards are either regular \x60*\x60 or recursive \x60**\x60"
  | .partOfComponent => "recursive wildcards must form a single path component"
  | .unclosedSet => "invalid range pattern"

/-- The wording of a problem. -/
def Problem.message (problem : Problem) : String :=
  "Pattern syntax error near position " ++ toString problem.place ++ ": " ++ problem.fault.message

/-- The entries of a set of characters. -/
def rangesOf : List Char → List CharRange
  | first :: '-' :: last :: rest => .between first last :: rangesOf rest
  | c :: rest => .single c :: rangesOf rest
  | [] => []

/-- Cuts a set of characters off a text that starts after its opening bracket. The first character
belongs to the set whatever it is. -/
def cutSet (text : List Char) : Option (List Char × List Char) :=
  match text with
  | [] => none
  | first :: rest =>
    match rest.dropWhile (· != ']') with
    | [] => none
    | _ :: after => some (first :: rest.takeWhile (· != ']'), after)

/-- Adds the part for a component of two stars; two of them in a row count once, except at the
start. -/
def addComponents (found : List Part) : List Part :=
  match found with
  | .anyComponents :: _ :: _ => found
  | _ => .anyComponents :: found

/-- Reads a pattern. `length` is the number of its characters, `found` holds the parts read so far
in reverse, and `previous` is the character before the text. The first argument bounds the number of
steps. -/
def partsFrom (length : Nat) : Nat → List Part → Option Char → List Char →
    Except Problem (List Part)
  | 0, found, _, _ => .ok found.reverse
  | _ + 1, found, _, [] => .ok found.reverse
  | steps + 1, found, previous, c :: text =>
    let place := length - (text.length + 1)
    match c with
    | '?' => partsFrom length steps (.anyChar :: found) (some '?') text
    | '*' =>
      let stars := 1 + (text.takeWhile (· == '*')).length
      let after := text.dropWhile (· == '*')
      if 2 < stars then .error ⟨place + 2, .threeStars⟩
      else if stars = 1 then partsFrom length steps (.anyText :: found) (some '*') after
      -- two stars must be a component of their own
      else if previous.any (· != '/') then .error ⟨place - 1, .partOfComponent⟩
      else
        match after with
        | [] => partsFrom length steps (addComponents found) (some '*') []
        | '/' :: after => partsFrom length steps (addComponents found) (some '/') after
        | _ :: _ => .error ⟨place + 2, .partOfComponent⟩
    | '[' =>
      match text with
      | '!' :: text =>
        match cutSet text with
        | some (set, after) =>
          partsFrom length steps (.noneOf (rangesOf set) :: found) (some ']') after
        | none => .error ⟨place, .unclosedSet⟩
      | text =>
        match cutSet text with
        | some (set, after) =>
          partsFrom length steps (.oneOf (rangesOf set) :: found) (some ']') after
        | none => .error ⟨place, .unclosedSet⟩
    | _ => partsFrom length steps (.char c :: found) (some c) text

/-- Whether a character belongs to a set. -/
def inRanges (c : Char) (ranges : List CharRange) : Bool :=
  ranges.any fun
    | .single other => other == c
    | .between first last => first ≤ c && c ≤ last

/-- The result of matching a text with parts of a pattern. -/
inductive Verdict where
  | matching
  | differing
  /-- The text is too short, and so is every shorter one. -/
  | tooShort
  deriving DecidableEq, Repr, Inhabited

/-- Tries the beginnings that a part may stand for, the shortest first, until what follows is
decided. `starts` says whether what follows may begin after the given character. -/
def tryAfter (starts : Char → Bool) (next : List Char → Verdict) : List Char → Verdict
  | [] => .differing
  | c :: text =>
    -- at the end of the text what follows is tried in any case
    if starts c || text.isEmpty then
      match next text with
      | .differing => tryAfter starts next text
      | verdict => verdict
    else tryAfter starts next text

/-- Matches one character. -/
def matchOne (accepts : Char → Bool) (next : List Char → Verdict) : List Char → Verdict
  | [] => .tooShort
  | c :: text => if accepts c then next text else .differing

/-- Matches a text with parts of a pattern. -/
def compare : List Part → List Char → Verdict
  | [], text => if text.isEmpty then .matching else .differing
  | .char c :: parts, text => matchOne (· == c) (compare parts) text
  | .anyChar :: parts, text => matchOne (fun _ => true) (compare parts) text
  | .oneOf ranges :: parts, text => matchOne (inRanges · ranges) (compare parts) text
  | .noneOf ranges :: parts, text => matchOne (fun c => !inRanges c ranges) (compare parts) text
  | .anyText :: parts, text =>
    match compare parts text with
    | .differing => tryAfter (fun _ => true) (compare parts) text
    | verdict => verdict
  | .anyComponents :: parts, text =>
    match compare parts text with
    | .differing => tryAfter (· == '/') (compare parts) text
    | verdict => verdict

end Glob

/-- A pattern for names of files. -/
structure Glob where
  parts : List Glob.Part
  deriving DecidableEq, Repr, Inhabited

namespace Glob

/-- Reads a pattern. -/
def parse (pattern : String) : Except Problem Glob :=
  let text := pattern.toList
  (partsFrom text.length (text.length + 1) [] none text).map Glob.mk

/-- Whether a pattern accepts a name. -/
def accepts (glob : Glob) (name : String) : Bool :=
  compare glob.parts name.toList == .matching

end Glob

end ElementLint
