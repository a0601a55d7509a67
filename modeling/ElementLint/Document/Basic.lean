import ElementLint.Markup.Parse
import ElementLint.Span.Nesting
import ElementLint.Span.Pairing
import ElementLint.Text.SourceMap
import ElementLint.Warning.Basic

/-!
# Documents

A `Document` is a file of markup with its tree and the places of its elements in the text. The nodes
of the tree are numbered in preorder, the document being node 0; the content of a template is a node
of its own, numbered right after the template and before the template's children
(`Forest.number`).

An element that the text leaves out has no place in it.
-/

namespace ElementLint

open Markup

/-- The number of a node of a document. -/
abbrev NodeId := Nat

/-- What a node is. -/
inductive NodeKind where
  | document
  /-- The inert content of a template. -/
  | fragment
  /-- An element; `content` is its inert content if it has such. -/
  | element (tag : String) (attributes : List Attribute) (content : Option NodeId)
  | text (text : String)
  | comment (text : String)
  | doctype
  deriving DecidableEq, Repr, Inhabited

/-- A node of a document. -/
structure Node where
  kind : NodeKind
  children : List NodeId
  /-- The place of an element in the list of spans of its document. -/
  span : Option Nat
  deriving DecidableEq, Repr, Inhabited

/-- A file of markup, its tree and the spans of its elements. -/
structure Document where
  url : String
  contents : String
  nodes : Array Node
  spans : Array Span.TagSpan
  deriving Repr, Inhabited

/-- The tag name of an element. -/
def Node.tag? (node : Node) : Option String :=
  match node.kind with
  | .element tag _ _ => some tag
  | _ => none

/-- The node of a leaf. -/
def Markup.Leaf.toNode : Leaf → Node
  | .text run => ⟨.text run, [], none⟩
  | .comment run => ⟨.comment run, [], none⟩
  | .doctype => ⟨.doctype, [], none⟩

/-- Numbers the nodes of a forest from `next` on. Gives the numbers of the sibling nodes, all nodes
in the order of their numbers, and the number after the last. -/
def Markup.Forest.number (next : Nat) : Forest → List NodeId × List Node × Nat
  | .nil => ([], [], next)
  | .leaf single rest =>
    let (siblings, later, after) := rest.number (next + 1)
    (next :: siblings, single.toNode :: later, after)
  | .element tag attributes children rest =>
    let (inner, nodes, middle) := children.number (next + 1)
    let (siblings, later, after) := rest.number middle
    (next :: siblings, ⟨.element tag attributes none, inner, none⟩ :: (nodes ++ later), after)
  | .template tag attributes content children rest =>
    let (inert, contentNodes, first) := content.number (next + 2)
    let (inner, nodes, middle) := children.number first
    let (siblings, later, after) := rest.number middle
    (next :: siblings,
      ⟨.element tag attributes (some (next + 1)), inner, none⟩ ::
        ⟨.fragment, inert, none⟩ :: (contentNodes ++ (nodes ++ later)), after)

namespace Document

/-- The nodes of a document with the given forest, in the order of their numbers. -/
def nodesOf (forest : Forest) : List Node :=
  let (roots, nodes, _) := forest.number 1
  ⟨.document, roots, none⟩ :: nodes

/-- Gives the elements among some nodes, in order, their spans. -/
def placeElements : List Node → List (Option Nat) → List Node
  | [], _ => []
  | node :: nodes, spans =>
    match node.tag?, spans with
    | some _, span :: spans => { node with span } :: placeElements nodes spans
    | _, spans => node :: placeElements nodes spans

/-- The document with the given tree and spans. -/
def ofForest (url contents : String) (forest : Forest) (spans : Array Span.TagSpan) : Document :=
  let nodes := nodesOf forest
  let claims :=
    Span.Pairing.claims 0 (spans.toList.map (·.name)) (nodes.filterMap (·.tag?))
  { url, contents, nodes := (placeElements nodes claims).toArray, spans }

/-- Parses a file. -/
def parse (url contents : String) : Document :=
  let text := contents.toList
  ofForest url contents (Markup.parse text) (Span.TagSpan.scan text)

/-- The node of a number. -/
def node? (document : Document) (id : NodeId) : Option Node :=
  document.nodes[id]?

/-- The span of an element that stands in the text. -/
def span? (document : Document) (id : NodeId) : Option Span.TagSpan :=
  (document.node? id).bind fun node => node.span.bind fun i => document.spans[i]?

/-! ### Places in the text -/

/-- The range between two byte offsets. -/
def rangeOf (document : Document) (offsets : Extent) : SourceRange :=
  let text := document.contents.toList
  { file := document.url
    start := .ofOffset text offsets.start
    stop := .ofOffset text offsets.stop
    offsets }

/-- The range of an element, from its start tag to the end of its end tag. -/
def elementRange? (document : Document) (id : NodeId) : Option SourceRange :=
  (document.span? id).map fun span => document.rangeOf ⟨span.start, span.stop⟩

/-- The range of the start tag of an element. -/
def startTagRange? (document : Document) (id : NodeId) : Option SourceRange :=
  (document.span? id).map fun span => document.rangeOf ⟨span.start, span.startTagEnd⟩

/-- The range of an attribute value as it is written, with its quotes. -/
def attributeValueRange? (document : Document) (id : NodeId) (name : String) :
    Option SourceRange :=
  (document.span? id).bind fun span =>
    (span.attributes.find? (fun a => Text.sameName a.name name)).bind fun found =>
      found.value.map document.rangeOf

/-- The insertion of a text right after the tag name of an element, where an attribute can go. -/
def insertAfterTagName? (document : Document) (id : NodeId) (text : String) :
    Option Replacement :=
  (document.span? id).map fun span => ⟨document.rangeOf ⟨span.nameEnd, span.nameEnd⟩, text⟩

/-- The insertion of a text right after the start tag of an element. -/
def prependContent? (document : Document) (id : NodeId) (text : String) : Option Replacement :=
  (document.span? id).map fun span =>
    ⟨document.rangeOf ⟨span.startTagEnd, span.startTagEnd⟩, text⟩

end Document

end ElementLint
