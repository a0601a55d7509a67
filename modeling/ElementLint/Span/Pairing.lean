import ElementLint.Span.Basic
import ElementLint.Text.Blank

/-!
# Pairing elements with spans

The elements of a tree are paired with the start tags of the text, both in order. An element takes
the next start tag if that has its name. Otherwise an element that the text may leave out takes
none, and any other one takes the next start tag of its name, if there is one; the start tags before
that are passed over, since the tree has dropped them.
-/

namespace ElementLint.Span.Pairing

/-- The elements that a tree supplies where a text leaves them out. -/
def impliedNames : List String :=
  ["html", "head", "body", "tbody", "colgroup", "tr"]

/-- Whether a text may leave out the elements of a name. -/
def mayBeImplied (name : String) : Bool :=
  impliedNames.contains name

/-- The place, counted from `next`, of the first span name that equals a name up to the case of
letters. -/
def findName (name : String) : Nat → List String → Option Nat
  | _, [] => none
  | next, spanName :: rest =>
    if Text.sameName spanName name then some next else findName name (next + 1) rest

/-- The span that an element takes. `next` is the number of spans that are passed over or taken
already, and the list holds the names of the others. -/
def claim (name : String) (next : Nat) : List String → Option Nat
  | [] => none
  | spanName :: rest =>
    if Text.sameName spanName name then some next
    else if mayBeImplied name then none
    else findName name (next + 1) rest

/-- The spans that some elements take, in order. -/
def claims (next : Nat) (spanNames : List String) : List String → List (Option Nat)
  | [] => []
  | name :: names =>
    match claim name next spanNames with
    | none => none :: claims next spanNames names
    | some taken =>
      some taken :: claims (taken + 1) (spanNames.drop (taken + 1 - next)) names

end ElementLint.Span.Pairing
