import ElementLint.Text.Blank

/-!
# Selectors

The selectors by which an element chose its content: alternatives of compound selectors. A compound
selector tests one element for its name, its id, its classes and its attributes.
-/

namespace ElementLint

namespace Selector

/-- A test of an attribute. -/
inductive AttributeTest where
  | present (name : String)
  | equals (name value : String)
  deriving DecidableEq, Repr, Inhabited

/-- A compound selector. -/
structure Compound where
  element : Option String := none
  classes : List String := []
  id : Option String := none
  attributes : List AttributeTest := []
  deriving DecidableEq, Repr, Inhabited

/-- How two compound selectors are combined. -/
inductive Combinator where
  | descendant
  | child
  | adjacent
  | sibling
  deriving DecidableEq, Repr, Inhabited

/-- The word for a combinator. -/
def Combinator.word : Combinator → String
  | .descendant => "descendant"
  | .child => "child"
  | .adjacent => "adjacent"
  | .sibling => "sibling"

/-- Why a selector cannot be used. -/
inductive Problem where
  /-- It is no selector. -/
  | unparseable
  /-- It combines compound selectors. -/
  | combinator (combinator : Combinator)
  deriving DecidableEq, Repr, Inhabited

/-- Whether an element, given by its attributes, passes a test. -/
def AttributeTest.accepts (attribute? : String → Option String) : AttributeTest → Bool
  | .present name => (attribute? name).isSome
  | .equals name value => attribute? name == some value

/-- Whether a compound selector accepts an element, given by its tag name and its attributes. -/
def Compound.accepts (compound : Compound) (tag : String) (attribute? : String → Option String) :
    Bool :=
  let classes := Text.words ((attribute? "class").getD "").toList
  compound.element.all (Text.sameName · tag) &&
    compound.id.all (fun id => attribute? "id" == some id) &&
    compound.classes.all (fun name => classes.contains name.toList) &&
    compound.attributes.all (·.accepts attribute?)

end Selector

/-- A selector: its alternatives. -/
structure Selector where
  alternatives : List Selector.Compound
  deriving DecidableEq, Repr, Inhabited

/-- Whether a selector accepts an element. -/
def Selector.accepts (selector : Selector) (tag : String) (attribute? : String → Option String) :
    Bool :=
  selector.alternatives.any (·.accepts tag attribute?)

end ElementLint
