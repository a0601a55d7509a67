import ElementLint.Document.Query
import Mathlib.Data.List.Nodup
import Mathlib.Data.List.Perm.Basic
import Mathlib.Order.Nat

/-!
# The tree of a document

The nodes of a document are a tree (`Document.isTree_ofForest`): every node but the document itself
stands below exactly one node, once, as the content of a template or as a child, and its number is
larger than that of the node above it. Numbers grow from sibling to sibling, the content of a
template coming before the children. So the content of a template is the child of no node
(`Document.IsTree.not_mem_children_of_templateContent?`).
-/

namespace ElementLint

open Markup

/-- The content of a node. -/
def Node.content? (node : Node) : Option NodeId :=
  match node.kind with
  | .element _ _ content => content
  | _ => none

/-- The nodes right below a node: its content and its children. -/
def Node.below (node : Node) : List NodeId :=
  node.content?.toList ++ node.children

/-- What stands below each of the nodes with the numbers from `next` up to `after`. Those of them
that stand below no other one are given as well. -/
structure IsNumbered (next : Nat) (tops : List Nat) (below : List (List Nat)) (after : Nat) :
    Prop where
  after_eq : after = next + below.length
  /-- Every node is at the top or stands below one node, once. -/
  perm : (tops ++ below.flatten).Perm (List.range' next below.length)
  tops_increasing : tops.Pairwise (· < ·)
  below_increasing : ∀ ids ∈ below, ids.Pairwise (· < ·)
  lt_below : ∀ i ids, below[i]? = some ids → ∀ id ∈ ids, next + i < id

namespace IsNumbered

variable {next middle after : Nat} {tops moreTops : List Nat} {below moreBelow : List (List Nat)}

theorem nil (next : Nat) : IsNumbered next [] [] next := by
  refine ⟨rfl, by simp, .nil, by simp, by simp⟩

theorem mem_range (h : IsNumbered next tops below after) {id : Nat} (hmem : id ∈ tops) :
    next ≤ id ∧ id < after := by
  have hrange := h.perm.subset (List.mem_append_left _ hmem)
  rwa [List.mem_range'_1, ← h.after_eq] at hrange

/-- Siblings are numbered after those before them and what stands below these. -/
theorem append (h : IsNumbered next tops below middle)
    (hmore : IsNumbered middle moreTops moreBelow after) :
    IsNumbered next (tops ++ moreTops) (below ++ moreBelow) after := by
  have hmiddle := h.after_eq
  refine ⟨?_, ?_, ?_, ?_, ?_⟩
  · rw [hmore.after_eq, hmiddle, List.length_append, Nat.add_assoc]
  · rw [List.flatten_append, List.length_append, ← List.range'_append_1, ← hmiddle]
    refine List.Perm.trans ?_ (h.perm.append hmore.perm)
    simp only [List.append_assoc, List.perm_append_left_iff]
    rw [← List.append_assoc, ← List.append_assoc]
    exact List.perm_append_comm.append_right _
  · refine List.pairwise_append.2 ⟨h.tops_increasing, hmore.tops_increasing, ?_⟩
    intro a ha b hb
    exact (h.mem_range ha).2.trans_le (hmore.mem_range hb).1
  · intro ids hmem
    rcases List.mem_append.1 hmem with hmem | hmem
    · exact h.below_increasing ids hmem
    · exact hmore.below_increasing ids hmem
  · intro i ids hi id hmem
    rcases Nat.lt_or_ge i below.length with hlt | hge
    · rw [List.getElem?_append_left hlt] at hi
      exact h.lt_below i ids hi id hmem
    · rw [List.getElem?_append_right hge] at hi
      have hlt := hmore.lt_below (i - below.length) ids hi id hmem
      omega

/-- A node is numbered before those below it. -/
theorem cons (h : IsNumbered (next + 1) tops below after) :
    IsNumbered next [next] (tops :: below) after := by
  refine ⟨?_, ?_, List.pairwise_singleton _ _, ?_, ?_⟩
  · rw [h.after_eq, List.length_cons]
    omega
  · rw [List.flatten_cons, List.length_cons, List.range'_succ]
    exact h.perm.cons next
  · intro ids hmem
    rcases List.mem_cons.1 hmem with rfl | hmem
    · exact h.tops_increasing
    · exact h.below_increasing ids hmem
  · intro i ids hi id hmem
    cases i with
    | zero =>
      obtain rfl := Option.some.inj hi
      exact (h.mem_range hmem).1
    | succ i =>
      have hlt := h.lt_below i ids hi id hmem
      omega

end IsNumbered

theorem Node.below_toNode (single : Leaf) : single.toNode.below = [] := by
  cases single <;> rfl

/-- The numbering of a forest puts every node below one other, or among the siblings at the top. -/
theorem Markup.Forest.isNumbered_number (forest : Forest) (next : Nat) :
    IsNumbered next (forest.number next).1 ((forest.number next).2.1.map Node.below)
      (forest.number next).2.2 := by
  induction forest generalizing next with
  | nil => exact .nil next
  | leaf single rest ih =>
    have hsingle : IsNumbered next [next] [single.toNode.below] (next + 1) := by
      rw [Node.below_toNode]
      exact (IsNumbered.nil _).cons
    exact hsingle.append (ih (next + 1))
  | element tag attributes children rest ihChildren ihRest =>
    have helement := (ihChildren (next + 1)).cons.append (ihRest _)
    simp only [number, List.map_cons, List.map_append]
    exact helement
  | template tag attributes content children rest ihContent ihChildren ihRest =>
    -- the content stands before the children, below the template like them
    have hfragment := (ihContent (next + 2)).cons
    have htemplate := (hfragment.append (ihChildren _)).cons.append (ihRest _)
    rw [List.cons_append, List.cons_append, List.append_assoc] at htemplate
    simp only [number, List.map_cons, List.map_append]
    exact htemplate

namespace Document

variable {document : Document} {parent parent' child : NodeId}

/-- The nodes of a document are a tree whose numbers grow downwards and from sibling to sibling. -/
def IsTree (document : Document) : Prop :=
  IsNumbered 0 [root] (document.nodes.toList.map Node.below) document.nodes.size

/-- Giving the elements their spans leaves everything else as it is. -/
theorem map_placeElements {α : Type} {f : Node → α}
    (hf : ∀ node span, f { node with span } = f node) (nodes : List Node)
    (claimed : List (Option Nat)) :
    (placeElements nodes claimed).map f = nodes.map f := by
  fun_induction placeElements nodes claimed with
  | case1 => rfl
  | case2 node nodes _ _ _ _ ih => rw [List.map_cons, ih, List.map_cons, hf]
  | case3 node nodes _ _ ih => rw [List.map_cons, ih, List.map_cons]

theorem isTree_ofForest (url contents : String) (forest : Forest)
    (spans : Array Span.TagSpan) : (ofForest url contents forest spans).IsTree := by
  have hnumbered := (forest.isNumbered_number 1).cons
  have hbelow : (ofForest url contents forest spans).nodes.toList.map Node.below =
      (nodesOf forest).map Node.below :=
    map_placeElements (fun _ _ => rfl) _ _
  have hsize : (ofForest url contents forest spans).nodes.size = (forest.number 1).2.2 := by
    rw [hnumbered.after_eq, ← Array.length_toList, ← List.length_map (f := Node.below), hbelow,
      Nat.zero_add]
    rfl
  rw [IsTree, hbelow, hsize]
  exact hnumbered

theorem isTree_parse (url contents : String) : (parse url contents).IsTree :=
  isTree_ofForest _ _ _ _

/-- A node stands right below another one, as its content or as one of its children. -/
def StandsUnder (document : Document) (parent child : NodeId) : Prop :=
  ∃ ids, (document.nodes.toList.map Node.below)[parent]? = some ids ∧ child ∈ ids

theorem getElem?_map_below {node : Node} (h : document.node? parent = some node) :
    (document.nodes.toList.map Node.below)[parent]? = some node.below := by
  rw [List.getElem?_map, Array.getElem?_toList]
  exact congrArg (Option.map Node.below) h

theorem standsUnder_of_mem_children (h : child ∈ document.children parent) :
    document.StandsUnder parent child := by
  rw [children] at h
  split at h
  · next node hnode => exact ⟨_, getElem?_map_below hnode, List.mem_append_right _ h⟩
  · contradiction

theorem exists_of_templateContent?_eq_some (h : document.templateContent? parent = some child) :
    ∃ node, document.node? parent = some node ∧ node.below = child :: node.children := by
  rw [templateContent?] at h
  split at h
  · next tag attributes content children span hnode =>
    refine ⟨_, hnode, ?_⟩
    rw [Node.below, Node.content?, h]
    rfl
  · contradiction

theorem standsUnder_of_templateContent? (h : document.templateContent? parent = some child) :
    document.StandsUnder parent child := by
  obtain ⟨node, hnode, hbelow⟩ := exists_of_templateContent?_eq_some h
  exact ⟨_, getElem?_map_below hnode, hbelow ▸ List.mem_cons_self⟩

namespace IsTree

variable (htree : document.IsTree)
include htree

theorem lt_of_standsUnder (h : document.StandsUnder parent child) : parent < child := by
  obtain ⟨ids, hids, hmem⟩ := h
  have hlt := htree.lt_below parent ids hids child hmem
  rwa [Nat.zero_add] at hlt

theorem lt_of_mem_children (h : child ∈ document.children parent) : parent < child :=
  htree.lt_of_standsUnder (standsUnder_of_mem_children h)

/-- A node stands right below one node only. -/
theorem eq_of_standsUnder (h : document.StandsUnder parent child)
    (h' : document.StandsUnder parent' child) : parent = parent' := by
  have hnodup : (document.nodes.toList.map Node.below).flatten.Nodup :=
    (List.nodup_append.1 (htree.perm.nodup_iff.2 List.nodup_range')).2.1
  have hdisjoint := (List.nodup_flatten.1 hnodup).2
  obtain ⟨ids, hids, hmem⟩ := h
  obtain ⟨ids', hids', hmem'⟩ := h'
  obtain ⟨hlt, rfl⟩ := List.getElem?_eq_some_iff.1 hids
  obtain ⟨hlt', rfl⟩ := List.getElem?_eq_some_iff.1 hids'
  rw [List.pairwise_iff_getElem] at hdisjoint
  rcases Nat.lt_trichotomy parent parent' with hbefore | rfl | hafter
  · exact absurd hmem' (hdisjoint parent parent' hlt hlt' hbefore hmem)
  · rfl
  · exact absurd hmem (hdisjoint parent' parent hlt' hlt hafter hmem')

/-- The content of a template is no child of a node. -/
theorem not_mem_children_of_templateContent? (h : document.templateContent? parent = some child)
    (parent' : NodeId) : child ∉ document.children parent' := by
  intro hmem
  obtain rfl := htree.eq_of_standsUnder (standsUnder_of_templateContent? h)
    (standsUnder_of_mem_children hmem)
  obtain ⟨node, hnode, hbelow⟩ := exists_of_templateContent?_eq_some h
  have hincreasing := htree.below_increasing node.below
    (List.mem_of_getElem? (getElem?_map_below hnode))
  rw [hbelow, List.pairwise_cons] at hincreasing
  rw [children, hnode] at hmem
  exact Nat.lt_irrefl _ (hincreasing.1 child hmem)

theorem pairwise_children (parent : NodeId) :
    (document.children parent).Pairwise (· < ·) := by
  rw [children]
  split
  · next node hnode =>
    have hmem : node.below ∈ document.nodes.toList.map Node.below :=
      List.mem_map_of_mem (Array.mem_toList_iff.2 (Array.mem_of_getElem? hnode))
    exact (List.pairwise_append.1 (htree.below_increasing _ hmem)).2.1
  · exact .nil

/-- A node is a child of one node only. -/
theorem eq_of_mem_children (h : child ∈ document.children parent)
    (h' : child ∈ document.children parent') : parent = parent' :=
  htree.eq_of_standsUnder (standsUnder_of_mem_children h) (standsUnder_of_mem_children h')

end IsTree

end Document

end ElementLint
