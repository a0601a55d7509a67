import ElementLint.Markup.ElementName
import ElementLint.Markup.Forest

/-!
# Trees under construction

While markup is read, nodes move: an element may be taken from one parent and given to another. A
`Draft` keeps the nodes in the order of their creation and each with its parent and children, named
by their numbers. The document is node 0. When the reading is done, `Draft.toForest` gives the tree
below the document.
-/

namespace ElementLint.Markup

/-- The number of a node of a draft. -/
abbrev DraftId := Nat

/-- What a node of a draft is. -/
inductive DraftKind where
  /-- The document, or the inert content of a template. -/
  | root
  | leaf (leaf : Leaf)
  /-- An element; `content` is its inert content if it is a template. -/
  | element (name : ElementName) (attributes : List Attribute) (content : Option DraftId)
  deriving Repr, Inhabited

/-- A node of a draft. -/
structure DraftNode where
  kind : DraftKind
  parent : Option DraftId
  children : Array DraftId
  deriving Repr, Inhabited

/-- A tree under construction. -/
structure Draft where
  nodes : Array DraftNode
  deriving Repr, Inhabited

/-- A place for a node. -/
inductive Place where
  /-- After the children of a node. -/
  | inside (parent : DraftId)
  /-- Right before a node. -/
  | before (sibling : DraftId)
  deriving DecidableEq, Repr

namespace Draft

/-- The draft that holds only the document. -/
def empty : Draft := ⟨#[⟨.root, none, #[]⟩]⟩

/-- The number of the document. -/
def document : DraftId := 0

/-- The node of a number. -/
def node? (draft : Draft) (id : DraftId) : Option DraftNode :=
  draft.nodes[id]?

/-- The number of the node that holds a node. -/
def parent? (draft : Draft) (id : DraftId) : Option DraftId :=
  (draft.node? id).bind (·.parent)

/-- The nodes that a node holds. -/
def children (draft : Draft) (id : DraftId) : Array DraftId :=
  match draft.node? id with
  | some node => node.children
  | none => #[]

/-- Changes a node. -/
def modify (draft : Draft) (id : DraftId) (change : DraftNode → DraftNode) : Draft :=
  ⟨draft.nodes.modify id change⟩

/-- Adds a node without a parent. -/
def create (draft : Draft) (kind : DraftKind) : Draft × DraftId :=
  (⟨draft.nodes.push ⟨kind, none, #[]⟩⟩, draft.nodes.size)

/-- Adds an element without a parent; a template gets its inert content. -/
def createElement (draft : Draft) (name : ElementName) (attributes : List Attribute) :
    Draft × DraftId :=
  if name.isHtml "template" then
    let (draft, content) := draft.create .root
    draft.create (.element name attributes (some content))
  else draft.create (.element name attributes none)

/-- Takes a node away from its parent. -/
def detach (draft : Draft) (id : DraftId) : Draft :=
  match draft.parent? id with
  | none => draft
  | some parent =>
    let draft := draft.modify parent fun node =>
      { node with children := node.children.filter (· != id) }
    draft.modify id fun node => { node with parent := none }

/-- The parent of a node and the node's place among the children. -/
def siblings (draft : Draft) (id : DraftId) : Option (DraftId × Nat) :=
  (draft.parent? id).bind fun parent =>
    ((draft.children parent).idxOf? id).map fun i => (parent, i)

/-- Puts a node without a parent into a place. -/
def insert (draft : Draft) (place : Place) (id : DraftId) : Draft :=
  match place with
  | .inside parent =>
    (draft.modify parent (fun node => { node with children := node.children.push id })).modify id
      (fun node => { node with parent := some parent })
  | .before sibling =>
    match draft.siblings sibling with
    | none => draft
    | some (parent, i) =>
      (draft.modify parent (fun node =>
        { node with children := node.children.insertIdxIfInBounds i id })).modify id
        (fun node => { node with parent := some parent })

/-- The node right before a place. -/
def nodeBefore (draft : Draft) : Place → Option DraftId
  | .inside parent => (draft.children parent).back?
  | .before sibling =>
    (draft.siblings sibling).bind fun (parent, i) =>
      if i = 0 then none else (draft.children parent)[i - 1]?

/-- Puts text into a place; text right before the place is continued. -/
def insertText (draft : Draft) (place : Place) (run : String) : Draft :=
  match draft.nodeBefore place with
  | none => addText draft
  | some before =>
    match draft.node? before with
    | some ⟨.leaf (.text _), _, _⟩ =>
      draft.modify before fun node =>
        match node.kind with
        | .leaf (.text text) => { node with kind := .leaf (.text (text ++ run)) }
        | _ => node
    | _ => addText draft
where
  /-- Puts a new text node into the place. -/
  addText (draft : Draft) : Draft :=
    let (draft, id) := draft.create (.leaf (.text run))
    draft.insert place id

/-- Gives all children of a node to another one. -/
def moveChildren (draft : Draft) (source target : DraftId) : Draft :=
  let moved := draft.children source
  let draft := draft.modify source (fun node => { node with children := #[] })
  let draft := draft.modify target (fun node => { node with children := node.children ++ moved })
  let adopt := fun (node : DraftNode) => { node with parent := some target }
  moved.foldl (fun draft id => draft.modify id adopt) draft

/-- Gives an element the attributes that it does not have yet. -/
def addMissingAttributes (draft : Draft) (id : DraftId) (attributes : List Attribute) : Draft :=
  draft.modify id fun node =>
    match node.kind with
    | .element name present content =>
      let missing := attributes.filter (fun a => !present.any (·.name == a.name))
      { node with kind := .element name (present ++ missing) content }
    | _ => node

/-- The value of an attribute of an element. -/
def attribute? (draft : Draft) (id : DraftId) (name : String) : Option String :=
  match draft.node? id with
  | some ⟨.element _ attributes _, _, _⟩ => (attributes.find? (·.name == name)).map (·.value)
  | _ => none

/-- The node that new children of an element go to: the content of a template, else the element. -/
def contentOf (draft : Draft) (id : DraftId) : DraftId :=
  match draft.node? id with
  | some ⟨.element _ _ (some content), _, _⟩ => content
  | _ => id

/-- The forest of some sibling nodes. The first argument bounds the depth; the number of nodes is
enough. -/
def forestOf (draft : Draft) : Nat → List DraftId → Forest
  | 0, _ => .nil
  | depth + 1, ids =>
    ids.foldr (fun id rest =>
      match draft.node? id with
      | some ⟨.leaf leaf, _, _⟩ => .leaf leaf rest
      | some ⟨.element name attributes none, _, children⟩ =>
        .element name.tag attributes (draft.forestOf depth children.toList) rest
      | some ⟨.element name attributes (some content), _, children⟩ =>
        .template name.tag attributes (draft.forestOf depth (draft.children content).toList)
          (draft.forestOf depth children.toList) rest
      | _ => rest) .nil

/-- The forest below the document. -/
def toForest (draft : Draft) : Forest :=
  draft.forestOf (draft.nodes.size + 1) (draft.children document).toList

end Draft

end ElementLint.Markup
