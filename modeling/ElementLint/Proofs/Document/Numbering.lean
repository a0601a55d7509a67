import ElementLint.Proofs.Document.Descent
import Mathlib.Data.List.Intervals

/-!
# The order of the numbers

The nodes of a document stand for its tree (`Document.Shows`), and a traversal that goes from a node
to the content of a template, then to the children and then to the next sibling meets the numbers
one after the other (`Document.Visits`). The searches and the index of elements list numbers in this
order (`Document.numbering_ofForest`): a search passes over the content of templates, and the index
has all elements.
-/

namespace ElementLint

open Markup

namespace Document

variable {document : Document} {next : Nat} {forest : Forest} {id : NodeId} {ids : List NodeId}

/-- The nodes that a node names as its own: the content of a template, and then the children. -/
def listed (document : Document) (id : NodeId) : List NodeId :=
  (document.templateContent? id).toList ++ document.children id

theorem listed_eq_of_node? {node : Node} (h : document.node? id = some node) :
    document.listed id = node.below := by
  rw [listed, templateContent?, children, h]
  obtain ⟨kind, children, span⟩ := node
  cases kind <;> rfl

theorem listed_eq_of_unplaced? {node : Node} (h : document.unplaced? id = some node) :
    document.listed id = node.below := by
  obtain ⟨placed, hplaced, rfl⟩ := Option.map_eq_some_iff.1 h
  have hbelow : placed.unplaced.below = placed.below := rfl
  rw [hbelow, listed_eq_of_node? hplaced]

/-- What every node of a document lists, in the order of the nodes. -/
theorem map_listed_range (document : Document) :
    (List.range document.nodes.size).map document.listed =
      document.nodes.toList.map Node.below := by
  refine List.ext_getElem (by simp) fun id hlt _ => ?_
  have hnode : id < document.nodes.size := by simpa using hlt
  simpa using listed_eq_of_node? (Array.getElem?_eq_getElem hnode)

/-! ### The tree in the nodes -/

/-- Some siblings, with all nodes below them, are the nodes of a forest. -/
inductive Shows (document : Document) : List NodeId → Forest → Prop
  | nil : Shows document [] .nil
  | leaf {id : NodeId} {ids : List NodeId} {single : Leaf} {rest : Forest} :
      document.unplaced? id = some single.toNode → Shows document ids rest →
      Shows document (id :: ids) (.leaf single rest)
  | element {id : NodeId} {ids inner : List NodeId} {tag : String} {attributes : List Attribute}
      {children rest : Forest} :
      document.unplaced? id = some ⟨.element tag attributes none, inner, none⟩ →
      Shows document inner children → Shows document ids rest →
      Shows document (id :: ids) (.element tag attributes children rest)
  | template {id fragment : NodeId} {ids inert inner : List NodeId} {tag : String}
      {attributes : List Attribute} {content children rest : Forest} :
      document.unplaced? id = some ⟨.element tag attributes (some fragment), inner, none⟩ →
      document.unplaced? fragment = some ⟨.fragment, inert, none⟩ →
      Shows document inert content → Shows document inner children → Shows document ids rest →
      Shows document (id :: ids) (.template tag attributes content children rest)

theorem Holds.shows (h : document.Holds next forest) :
    document.Shows (forest.number next).1 forest := by
  induction forest generalizing next with
  | nil => exact .nil
  | leaf single rest ih =>
    obtain ⟨hnode, hrest⟩ := h.leaf
    exact .leaf hnode (ih hrest)
  | element tag attributes children rest ihChildren ihRest =>
    obtain ⟨hnode, hchildren, hrest⟩ := h.element
    exact .element hnode (ihChildren hchildren) (ihRest hrest)
  | template tag attributes content children rest ihContent ihChildren ihRest =>
    obtain ⟨hnode, hfragment, hcontent, hchildren, hrest⟩ := h.template
    exact .template hnode hfragment (ihContent hcontent) (ihChildren hchildren) (ihRest hrest)

/-! ### Preorder -/

/-- The preorder of some siblings and of all that stands below them: after a node come those that
it lists, and then the next sibling. -/
inductive Visits (document : Document) : List NodeId → List NodeId → Prop
  | nil : Visits document [] []
  | cons {id : NodeId} {siblings inner later : List NodeId} :
      Visits document (document.listed id) inner → Visits document siblings later →
      Visits document (id :: siblings) (id :: (inner ++ later))

/-- There is one preorder only. -/
theorem Visits.unique {order other : List NodeId} (h : document.Visits ids order)
    (hother : document.Visits ids other) : order = other := by
  induction h generalizing other with
  | nil =>
    cases hother
    rfl
  | cons _ _ ihListed ihSiblings =>
    cases hother with
    | cons hlisted hsiblings => rw [ihListed hlisted, ihSiblings hsiblings]

/-- A node is followed by the interval of those below it, and this by that of its siblings. -/
theorem Visits.cons_Ico {siblings : List NodeId} {middle after : Nat} (hlt : id < middle)
    (hle : middle ≤ after) (hlisted : document.Visits (document.listed id) (.Ico (id + 1) middle))
    (hlater : document.Visits siblings (.Ico middle after)) :
    document.Visits (id :: siblings) (.Ico id after) := by
  rw [List.Ico.eq_cons (hlt.trans_le hle), ← List.Ico.append_consecutive hlt hle]
  exact hlisted.cons hlater

/-- The preorder of a forest are the numbers from its first node on. -/
theorem Holds.visits (h : document.Holds next forest) :
    document.Visits (forest.number next).1 (.Ico next (forest.number next).2.2) := by
  induction forest generalizing next with
  | nil =>
    have hempty : List.Ico next (Forest.nil.number next).2.2 = [] := List.Ico.self_empty
    rw [hempty]
    exact .nil
  | leaf single rest ih =>
    obtain ⟨hnode, hrest⟩ := h.leaf
    have hle := rest.le_number_after (next + 1)
    have hlisted : document.listed next = [] := by
      rw [listed_eq_of_unplaced? hnode, Node.below_toNode]
    refine Visits.cons_Ico (Nat.lt_succ_self next) hle ?_ (ih hrest)
    rw [hlisted, List.Ico.self_empty]
    exact .nil
  | element tag attributes children rest ihChildren ihRest =>
    obtain ⟨hnode, hchildren, hrest⟩ := h.element
    have hmiddle := children.le_number_after (next + 1)
    have hle := rest.le_number_after (children.number (next + 1)).2.2
    refine Visits.cons_Ico hmiddle hle ?_ (ihRest hrest)
    rw [listed_eq_of_unplaced? hnode]
    exact ihChildren hchildren
  | template tag attributes content children rest ihContent ihChildren ihRest =>
    obtain ⟨hnode, hfragment, hcontent, hchildren, hrest⟩ := h.template
    have hfirst := content.le_number_after (next + 2)
    have hmiddle := children.le_number_after (content.number (next + 2)).2.2
    have hle := rest.le_number_after (children.number (content.number (next + 2)).2.2).2.2
    have hlt : next < (children.number (content.number (next + 2)).2.2).2.2 := by omega
    refine Visits.cons_Ico hlt hle ?_ (ihRest hrest)
    -- the template lists the node of its content first, and this one what stands in it
    rw [listed_eq_of_unplaced? hnode]
    refine Visits.cons_Ico hfirst hmiddle ?_ (ihChildren hchildren)
    rw [listed_eq_of_unplaced? hfragment]
    exact ihContent hcontent

/-! ### Documents -/

section OfForest

variable (url contents : String) (forest : Forest) (spans : Array Span.TagSpan)

theorem visits_iff_ofForest (order : List NodeId) :
    (ofForest url contents forest spans).Visits [root] order ↔
      order = List.range (ofForest url contents forest spans).nodes.size := by
  have hsize : (ofForest url contents forest spans).nodes.size = (forest.number 1).2.2 := by
    rw [← Array.length_toList, ← List.length_map (f := Node.unplaced), map_unplaced_ofForest,
      List.length_cons, Forest.number_after, Nat.add_comm]
  have hvisits : (ofForest url contents forest spans).Visits [root]
      (.Ico 0 (forest.number 1).2.2) := by
    refine Visits.cons_Ico (forest.le_number_after 1) (Nat.le_refl _) ?_ ?_
    · rw [listed_eq_of_unplaced? (unplaced?_root url contents forest spans)]
      exact (holds_ofForest url contents forest spans).visits
    · rw [List.Ico.self_empty]
      exact .nil
  rw [hsize, ← List.Ico.zero_bot]
  exact ⟨fun horder => horder.unique hvisits, fun heq => heq ▸ hvisits⟩

theorem listed_perm_ofForest :
    ((List.range (ofForest url contents forest spans).nodes.size).flatMap
        (ofForest url contents forest spans).listed).Perm
      (List.range' 1 ((ofForest url contents forest spans).nodes.size - 1)) := by
  have htree := isTree_ofForest url contents forest spans
  rw [List.flatMap_def, map_listed_range]
  have hperm := htree.perm
  rw [List.length_map, Array.length_toList] at hperm
  have hpos : 0 < (ofForest url contents forest spans).nodes.size :=
    (htree.mem_range (List.mem_singleton.2 rfl)).2
  obtain ⟨count, hcount⟩ := Nat.exists_eq_add_of_lt hpos
  rw [Nat.zero_add] at hcount
  rw [hcount, List.range'_succ, List.singleton_append] at hperm
  rw [hcount, Nat.add_sub_cancel]
  exact hperm.cons_inv

/-- The nodes of a document are its tree, numbered in preorder with the content of a template before
the children, and every node but the document is listed by one node, once. A search gives the nodes
below a node that it accepts in this order and passes over the content of templates, and the index
gives all elements of a name. -/
theorem numbering_ofForest :
    let document := ofForest url contents forest spans
    (∃ tops, document.unplaced? root = some ⟨.document, tops, none⟩ ∧
      document.Shows tops forest) ∧
    (∀ order, document.Visits [root] order ↔ order = List.range document.nodes.size) ∧
    ((List.range document.nodes.size).flatMap document.listed).Perm
      (List.range' 1 (document.nodes.size - 1)) ∧
    (∀ (id : NodeId) (accepts : NodeId → Bool),
      Lists (fun found => document.Below id found ∧ accepts found = true)
        (document.queryAll id accepts) ∧
      document.query? id accepts = (document.queryAll id accepts).head?) ∧
    ∀ name, Lists (fun id => document.tagName? id = some name) (document.elementsNamed name) := by
  intro document
  refine ⟨⟨_, unplaced?_root url contents forest spans,
    (holds_ofForest url contents forest spans).shows⟩,
    visits_iff_ofForest url contents forest spans,
    listed_perm_ofForest url contents forest spans, fun id accepts => ⟨?_, ?_⟩,
    document.lists_elementsNamed⟩
  · exact (lists_descendants_ofForest url contents forest spans id).filter accepts
  · rw [query?, queryAll, List.head?_filter]

end OfForest

-- a template with an element and a template in it, and an element behind it
example :
    let inner : Forest := .template "template" [] (.element "p" [] .nil .nil) .nil .nil
    let document := ofForest "a.html" ""
      (.template "template" [] (.element "p" [] .nil inner) .nil (.element "p" [] .nil .nil)) #[]
    document.elementsNamed "p" = [3, 6, 7] ∧
      document.queryAll root (document.hasTagName · "p") = [7] := by
  decide

end Document

end ElementLint
