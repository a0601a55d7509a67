import ElementLint.Markup.Token.Basic

/-!
# Forests

A document is a forest: a run of sibling nodes, elements among them with forests of their own. Some
elements hold, besides their children, inert content that searches do not enter.
-/

namespace ElementLint.Markup

/-- A node without children. -/
inductive Leaf where
  | text (text : String)
  | comment (text : String)
  | doctype
  deriving DecidableEq, Repr, Inhabited

/-- A run of sibling nodes. -/
inductive Forest where
  | nil
  | leaf (leaf : Leaf) (rest : Forest)
  | element (tag : String) (attributes : List Attribute) (children rest : Forest)
  /-- An element with inert content. -/
  | template (tag : String) (attributes : List Attribute) (content children rest : Forest)
  deriving DecidableEq, Repr, Inhabited

end ElementLint.Markup
