import ElementLint.Document.Basic

/-!
# Queries

Questions about the nodes of a document, and the search for nodes below a node. A search goes
through the descendants in preorder and does not enter the content of templates; only
`Document.elementsNamed` finds elements wherever they are, in an index of all elements by their
names.
-/

namespace ElementLint

open Markup

/-- The elements of each name, in the order in which they were entered. -/
abbrev ElementIndex := List (String × List NodeId)

namespace ElementIndex

/-- The elements of a name. -/
def get (index : ElementIndex) (name : String) : List NodeId :=
  (index.lookup name).getD []

/-- Enters an element behind the others of its name. -/
def push (name : String) (id : NodeId) : ElementIndex → ElementIndex
  | [] => [(name, [id])]
  | (other, ids) :: rest =>
    if name = other then (other, ids ++ [id]) :: rest else (other, ids) :: push name id rest

/-- Enters a node that is an element. -/
def enterNode (index : ElementIndex) (id : NodeId) (node : Node) : ElementIndex :=
  match node.tag? with
  | some name => index.push name id
  | none => index

/-- Enters the elements among some nodes that are numbered from `next` on. -/
def enter (next : NodeId) : List Node → ElementIndex → ElementIndex
  | [], index => index
  | node :: nodes, index => enter (next + 1) nodes (index.enterNode next node)

end ElementIndex

namespace Document

/-- Whether a node is an element. -/
def isElement (document : Document) (id : NodeId) : Bool :=
  (document.node? id).any (·.tag?.isSome)

/-- The tag name of an element. -/
def tagName? (document : Document) (id : NodeId) : Option String :=
  (document.node? id).bind (·.tag?)

/-- Whether a node is an element of the given name. -/
def hasTagName (document : Document) (id : NodeId) (name : String) : Bool :=
  document.tagName? id == some name

/-- The value of the first attribute of the given name. -/
def attribute? (document : Document) (id : NodeId) (name : String) : Option String :=
  match document.node? id with
  | some ⟨.element _ attributes _, _, _⟩ => (attributes.find? (·.name == name)).map (·.value)
  | _ => none

/-- Whether a node has an attribute of the given name. -/
def hasAttribute (document : Document) (id : NodeId) (name : String) : Bool :=
  (document.attribute? id name).isSome

/-- The text of a text node or of a comment. -/
def text? (document : Document) (id : NodeId) : Option String :=
  match document.node? id with
  | some ⟨.text text, _, _⟩ => some text
  | some ⟨.comment text, _, _⟩ => some text
  | _ => none

/-- Whether a node is a text node. -/
def isText (document : Document) (id : NodeId) : Bool :=
  match document.node? id with
  | some ⟨.text _, _, _⟩ => true
  | _ => false

/-- The children of a node. -/
def children (document : Document) (id : NodeId) : List NodeId :=
  match document.node? id with
  | some node => node.children
  | none => []

/-- The children of a node that are elements. -/
def childElements (document : Document) (id : NodeId) : List NodeId :=
  (document.children id).filter document.isElement

/-- The inert content of a template. -/
def templateContent? (document : Document) (id : NodeId) : Option NodeId :=
  match document.node? id with
  | some ⟨.element _ _ content, _, _⟩ => content
  | _ => none

/-- The index of all elements of a document. -/
def elementIndex (document : Document) : ElementIndex :=
  .enter 0 document.nodes.toList []

/-- Every element of the given name, in preorder. -/
def elementsNamed (document : Document) (name : String) : List NodeId :=
  document.elementIndex.get name

/-- Some nodes and their descendants in preorder. The first argument bounds the number of nodes. -/
def walk (document : Document) : Nat → List NodeId → List NodeId
  | 0, _ => []
  | _ + 1, [] => []
  | count + 1, id :: waiting => id :: walk document count (document.children id ++ waiting)

/-- The descendants of a node in preorder. -/
def descendants (document : Document) (id : NodeId) : List NodeId :=
  document.walk document.nodes.size (document.children id)

/-- The first descendant of a node that a predicate accepts. -/
def query? (document : Document) (id : NodeId) (p : NodeId → Bool) : Option NodeId :=
  (document.descendants id).find? p

/-- The descendants of a node that a predicate accepts. -/
def queryAll (document : Document) (id : NodeId) (p : NodeId → Bool) : List NodeId :=
  (document.descendants id).filter p

/-- The number of the document among its nodes. -/
def root : NodeId := 0

end Document

/-- A definition of an element by `<dom-module>`. -/
structure DomModule where
  /-- The name of the defined element. -/
  id? : Option String
  node : NodeId
  deriving DecidableEq, Repr

/-- The definitions of elements in a document, in order. -/
def Document.domModules (document : Document) : List DomModule :=
  (document.queryAll root (document.hasTagName · "dom-module")).map fun node =>
    ⟨document.attribute? node "id", node⟩

end ElementLint
