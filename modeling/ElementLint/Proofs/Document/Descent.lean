import ElementLint.Proofs.Document.Tree
import Mathlib.Logic.Relation
import Mathlib.Order.Bounds.Basic

/-!
# Descendants

The search below a node of a document finds every node that some steps from parent to child
lead to, once, in the order of the numbers (`Document.lists_descendants_ofForest`). It does not
enter the content of templates.

The nodes below a node are numbered like a forest of their own, and `Markup.Forest.outer` lists
the numbers of a forest without those in the content of templates. A document that holds a forest
somewhere (`Document.Holds`) is searched as that forest is listed (`Document.Holds.walk_append`).
The index of elements grows node by node and has every element of a name, also those in the content
of templates (`ElementIndex.Covers.enterNode`, `Document.lists_elementsNamed`).
-/

namespace ElementLint

open Markup

/-- A node without its place in the text. -/
def Node.unplaced (node : Node) : Node :=
  { node with span := none }

namespace Markup.Forest

/-- The numbers of the nodes of a forest that is numbered from `next` on, without those in the
content of templates. -/
def outer (next : Nat) : Forest → List NodeId
  | .nil => []
  | .leaf _ rest => next :: rest.outer (next + 1)
  | .element _ _ children rest =>
    next :: (children.outer (next + 1) ++ rest.outer (children.number (next + 1)).2.2)
  | .template _ _ content children rest =>
    let first := (content.number (next + 2)).2.2
    next :: (children.outer first ++ rest.outer (children.number first).2.2)

/-- Every node gets a number. -/
theorem number_after (forest : Forest) (next : Nat) :
    (forest.number next).2.2 = next + (forest.number next).2.1.length := by
  rw [(forest.isNumbered_number next).after_eq, List.length_map]

theorem nodes_element (next : Nat) (tag : String) (attributes : List Attribute)
    (children rest : Forest) :
    ((element tag attributes children rest).number next).2.1 =
      ⟨.element tag attributes none, (children.number (next + 1)).1, none⟩ ::
        ((children.number (next + 1)).2.1 ++
          (rest.number (children.number (next + 1)).2.2).2.1) :=
  rfl

theorem nodes_template (next : Nat) (tag : String) (attributes : List Attribute)
    (content children rest : Forest) :
    let first := (content.number (next + 2)).2.2
    ((template tag attributes content children rest).number next).2.1 =
      ⟨.element tag attributes (some (next + 1)), (children.number first).1, none⟩ ::
        ⟨.fragment, (content.number (next + 2)).1, none⟩ ::
          ((content.number (next + 2)).2.1 ++
            ((children.number first).2.1 ++ (rest.number (children.number first).2.2).2.1)) :=
  rfl

theorem map_unplaced_number (forest : Forest) (next : Nat) :
    (forest.number next).2.1.map Node.unplaced = (forest.number next).2.1 := by
  induction forest generalizing next with
  | nil => rfl
  | leaf single rest ih =>
    have hsingle : single.toNode.unplaced = single.toNode := by cases single <;> rfl
    simp only [number, List.map_cons, hsingle, ih]
  | element tag attributes children rest ihChildren ihRest =>
    rw [nodes_element, List.map_cons, List.map_append, ihChildren, ihRest]
    rfl
  | template tag attributes content children rest ihContent ihChildren ihRest =>
    rw [nodes_template, List.map_cons, List.map_cons, List.map_append, List.map_append, ihContent,
      ihChildren, ihRest]
    rfl

theorem le_number_after (forest : Forest) (next : Nat) : next ≤ (forest.number next).2.2 := by
  rw [number_after]
  exact Nat.le_add_right _ _

theorem mem_outer_bounds {forest : Forest} {next id : Nat} (h : id ∈ forest.outer next) :
    next ≤ id ∧ id < (forest.number next).2.2 := by
  induction forest generalizing next with
  | nil => contradiction
  | leaf single rest ih =>
    have hrest := rest.le_number_after (next + 1)
    show next ≤ id ∧ id < (rest.number (next + 1)).2.2
    rcases List.mem_cons.1 h with rfl | h
    · omega
    · have := ih h
      omega
  | element tag attributes children rest ihChildren ihRest =>
    have hchildren := children.le_number_after (next + 1)
    have hrest := rest.le_number_after (children.number (next + 1)).2.2
    show next ≤ id ∧ id < (rest.number (children.number (next + 1)).2.2).2.2
    rcases List.mem_cons.1 h with rfl | h
    · omega
    · rcases List.mem_append.1 h with h | h
      · have := ihChildren h
        omega
      · have := ihRest h
        omega
  -- the content takes numbers too, but none of them is listed
  | template tag attributes content children rest _ ihChildren ihRest =>
    have hcontent := content.le_number_after (next + 2)
    have hchildren := children.le_number_after (content.number (next + 2)).2.2
    have hrest := rest.le_number_after (children.number (content.number (next + 2)).2.2).2.2
    show next ≤ id ∧
      id < (rest.number (children.number (content.number (next + 2)).2.2).2.2).2.2
    rcases List.mem_cons.1 h with rfl | h
    · omega
    · rcases List.mem_append.1 h with h | h
      · have := ihChildren h
        omega
      · have := ihRest h
        omega

/-- What follows a node are the nodes below it and then those after it. -/
theorem pairwise_cons_append {next first middle : Nat} {children rest : Forest}
    (hfirst : next < first) (hmiddle : (children.number first).2.2 = middle)
    (hchildren : (children.outer first).Pairwise (· < ·))
    (hrest : (rest.outer middle).Pairwise (· < ·)) :
    (next :: (children.outer first ++ rest.outer middle)).Pairwise (· < ·) := by
  have hle := children.le_number_after first
  refine List.pairwise_cons.2 ⟨fun id hmem => ?_, List.pairwise_append.2 ⟨hchildren, hrest, ?_⟩⟩
  · rcases List.mem_append.1 hmem with hmem | hmem
    · have := mem_outer_bounds hmem
      omega
    · have := mem_outer_bounds hmem
      omega
  · intro a ha b hb
    have hbelow := mem_outer_bounds ha
    have hafter := mem_outer_bounds hb
    omega

theorem pairwise_outer (forest : Forest) (next : Nat) :
    (forest.outer next).Pairwise (· < ·) := by
  induction forest generalizing next with
  | nil => exact .nil
  | leaf single rest ih =>
    exact List.pairwise_cons.2 ⟨fun id hmem => (mem_outer_bounds hmem).1, ih _⟩
  | element tag attributes children rest ihChildren ihRest =>
    exact pairwise_cons_append (Nat.lt_succ_self _) rfl (ihChildren _) (ihRest _)
  | template tag attributes content children rest _ ihChildren ihRest =>
    have hcontent := content.le_number_after (next + 2)
    exact pairwise_cons_append (by omega) rfl (ihChildren _) (ihRest _)

end Markup.Forest

namespace Document

variable {document : Document} {next : Nat} {forest : Forest} {id : NodeId} {ids : List NodeId}

/-- The node of a number without its place in the text. -/
def unplaced? (document : Document) (id : NodeId) : Option Node :=
  (document.node? id).map Node.unplaced

theorem unplaced?_eq_getElem? (document : Document) (id : NodeId) :
    document.unplaced? id = (document.nodes.toList.map Node.unplaced)[id]? := by
  rw [unplaced?, node?, List.getElem?_map, Array.getElem?_toList]

theorem children_eq_getD (document : Document) (id : NodeId) :
    document.children id = ((document.unplaced? id).map (·.children)).getD [] := by
  rw [children, unplaced?]
  cases document.node? id <;> rfl

theorem children_eq_of_unplaced? {node : Node} (h : document.unplaced? id = some node) :
    document.children id = node.children := by
  rw [children_eq_getD, h]
  rfl

theorem children_eq_leaf {single : Leaf} (h : document.unplaced? id = some single.toNode) :
    document.children id = [] := by
  rw [children_eq_of_unplaced? h]
  cases single <;> rfl

/-- One step from a node to one of its children. -/
def IsParent (document : Document) (parent child : NodeId) : Prop :=
  child ∈ document.children parent

/-- A node that some steps from parent to child lead to. -/
def Below (document : Document) : NodeId → NodeId → Prop :=
  Relation.TransGen document.IsParent

/-- A document has the nodes of a forest that is numbered from `next` on. -/
def Holds (document : Document) (next : Nat) (forest : Forest) : Prop :=
  ∃ before after, document.nodes.toList.map Node.unplaced =
    before ++ ((forest.number next).2.1 ++ after) ∧ before.length = next

/-! ### A node with its children -/

section Cons

variable {siblings after : List NodeId} (below : List NodeId) (hids : document.children id = ids)
include hids

/-- The search goes from a node to its children, and behind them to the nodes after it. -/
theorem walk_cons
    (hbelow : ∀ count waiting, document.walk (count + below.length) (ids ++ waiting) =
      below ++ document.walk count waiting)
    (hafter : ∀ count waiting, document.walk (count + after.length) (siblings ++ waiting) =
      after ++ document.walk count waiting) (count : Nat) (waiting : List NodeId) :
    document.walk (count + (id :: (below ++ after)).length) (id :: siblings ++ waiting) =
      id :: (below ++ after) ++ document.walk count waiting := by
  -- one step for the node itself, and then as many as there are nodes below it and after it
  have hcount : count + (id :: (below ++ after)).length =
      count + after.length + below.length + 1 := by
    rw [List.length_cons, List.length_append]
    omega
  rw [hcount, List.cons_append, walk, hids, hbelow, hafter, List.cons_append, List.append_assoc]

/-- A node, the nodes below it and those that other nodes lead to. -/
theorem mem_cons_iff
    (hbelow : ∀ d, d ∈ below ↔ ∃ top ∈ ids, Relation.ReflTransGen document.IsParent top d)
    (hafter : ∀ d, d ∈ after ↔ ∃ top ∈ siblings, Relation.ReflTransGen document.IsParent top d)
    (d : NodeId) :
    d ∈ id :: (below ++ after) ↔
      ∃ top ∈ id :: siblings, Relation.ReflTransGen document.IsParent top d := by
  have hself : Relation.ReflTransGen document.IsParent id d ↔ d = id ∨ d ∈ below := by
    rw [Relation.ReflTransGen.cases_head_iff, hbelow, ← hids, eq_comm]
    rfl
  rw [List.mem_cons, List.mem_append, ← or_assoc, ← hself, hafter]
  simp

end Cons

/-! ### The nodes of a forest -/

namespace Holds

variable {before after : List Node}

theorem unplaced?_eq {node : Node} (before : List Node)
    (h : document.nodes.toList.map Node.unplaced = before ++ node :: after) :
    document.unplaced? before.length = some node := by
  rw [unplaced?_eq_getElem?, h, List.getElem?_append_right (Nat.le_refl _), Nat.sub_self]
  rfl

theorem nil (document : Document) : document.Holds 0 .nil :=
  ⟨[], document.nodes.toList.map Node.unplaced, rfl, rfl⟩

theorem of_eq_append (passed : List Node) {later : List Node}
    (h : document.nodes.toList.map Node.unplaced =
      before ++ (passed ++ ((forest.number next).2.1 ++ later)))
    (hnext : next = before.length + passed.length) : document.Holds next forest :=
  ⟨before ++ passed, later, by rw [h, List.append_assoc], by rw [List.length_append, hnext]⟩

/-! The nodes of a forest are those of its first tree and those behind it. -/

theorem leaf {single : Leaf} {rest : Forest} (h : document.Holds next (.leaf single rest)) :
    document.unplaced? next = some single.toNode ∧ document.Holds (next + 1) rest := by
  obtain ⟨before, after, heq, rfl⟩ := h
  exact ⟨unplaced?_eq _ heq, of_eq_append [_] heq rfl⟩

theorem element {tag : String} {attributes : List Attribute} {children rest : Forest}
    (h : document.Holds next (.element tag attributes children rest)) :
    document.unplaced? next =
        some ⟨.element tag attributes none, (children.number (next + 1)).1, none⟩ ∧
      document.Holds (next + 1) children ∧
      document.Holds (children.number (next + 1)).2.2 rest := by
  obtain ⟨before, after, heq, rfl⟩ := h
  simp only [Forest.nodes_element, List.cons_append, List.append_assoc] at heq
  refine ⟨unplaced?_eq _ heq, of_eq_append [_] heq rfl, ?_⟩
  rw [← List.cons_append] at heq
  refine of_eq_append _ heq ?_
  rw [Forest.number_after, List.length_cons]
  omega

theorem template {tag : String} {attributes : List Attribute} {content children rest : Forest}
    (h : document.Holds next (.template tag attributes content children rest)) :
    let first := (content.number (next + 2)).2.2
    document.unplaced? next =
        some ⟨.element tag attributes (some (next + 1)), (children.number first).1, none⟩ ∧
      document.unplaced? (next + 1) = some ⟨.fragment, (content.number (next + 2)).1, none⟩ ∧
      document.Holds (next + 2) content ∧ document.Holds first children ∧
      document.Holds (children.number first).2.2 rest := by
  obtain ⟨before, after, heq, rfl⟩ := h
  simp only [Forest.nodes_template, List.cons_append, List.append_assoc] at heq
  refine ⟨unplaced?_eq _ heq, ?_, of_eq_append [_, _] heq rfl, ?_, ?_⟩
  · have hfragment := heq
    rw [List.append_cons] at hfragment
    simpa using unplaced?_eq _ hfragment
  · rw [← List.cons_append, ← List.cons_append] at heq
    refine of_eq_append _ heq ?_
    rw [Forest.number_after, List.length_cons, List.length_cons]
    omega
  · rw [← List.cons_append, ← List.cons_append, ← List.append_assoc] at heq
    refine of_eq_append _ heq ?_
    rw [Forest.number_after, Forest.number_after content]
    simp only [List.length_append, List.length_cons]
    omega

/-! ### The search -/

/-- The search goes through the nodes of a forest and then goes on with what waits. -/
theorem walk_append (h : document.Holds next forest) (count : Nat) (waiting : List NodeId) :
    document.walk (count + (forest.outer next).length) ((forest.number next).1 ++ waiting) =
      forest.outer next ++ document.walk count waiting := by
  induction forest generalizing next waiting count with
  | nil => rfl
  | leaf single rest ih =>
    obtain ⟨hnode, hrest⟩ := h.leaf
    exact walk_cons [] (children_eq_leaf hnode) (fun _ _ => rfl) (ih hrest) count waiting
  | element tag attributes children rest ihChildren ihRest =>
    obtain ⟨hnode, hchildren, hrest⟩ := h.element
    exact walk_cons _ (children_eq_of_unplaced? hnode) (ihChildren hchildren) (ihRest hrest) count
      waiting
  | template tag attributes content children rest _ ihChildren ihRest =>
    obtain ⟨hnode, -, -, hchildren, hrest⟩ := h.template
    exact walk_cons _ (children_eq_of_unplaced? hnode) (ihChildren hchildren) (ihRest hrest) count
      waiting

/-- The nodes of a forest outside of the content of templates are its first nodes and those below
them. -/
theorem mem_outer_iff (h : document.Holds next forest) :
    ∀ id, id ∈ forest.outer next ↔
      ∃ top ∈ (forest.number next).1, Relation.ReflTransGen document.IsParent top id := by
  induction forest generalizing next with
  | nil => simp [Forest.outer, Forest.number]
  | leaf single rest ih =>
    obtain ⟨hnode, hrest⟩ := h.leaf
    exact mem_cons_iff [] (children_eq_leaf hnode) (by simp) (ih hrest)
  | element tag attributes children rest ihChildren ihRest =>
    obtain ⟨hnode, hchildren, hrest⟩ := h.element
    exact mem_cons_iff _ (children_eq_of_unplaced? hnode) (ihChildren hchildren) (ihRest hrest)
  | template tag attributes content children rest _ ihChildren ihRest =>
    obtain ⟨hnode, -, -, hchildren, hrest⟩ := h.template
    exact mem_cons_iff _ (children_eq_of_unplaced? hnode) (ihChildren hchildren) (ihRest hrest)

/-- The nodes below a node are numbered like a forest. -/
theorem exists_holds_children (h : document.Holds next forest) {id : Nat} (hle : next ≤ id)
    (hlt : id < (forest.number next).2.2) :
    ∃ first below, document.Holds first below ∧ document.children id = (below.number first).1 := by
  -- the number is that of the first node, or it is one of a smaller forest that starts there
  induction forest generalizing next with
  | nil => exact absurd hlt (Nat.not_lt.2 hle)
  | leaf single rest ih =>
    obtain ⟨hnode, hrest⟩ := h.leaf
    rcases Nat.eq_or_lt_of_le hle with rfl | hlater
    · exact ⟨0, .nil, .nil document, children_eq_leaf hnode⟩
    · exact ih hrest hlater hlt
  | element tag attributes children rest ihChildren ihRest =>
    obtain ⟨hnode, hchildren, hrest⟩ := h.element
    rcases Nat.eq_or_lt_of_le hle with rfl | hlater
    · exact ⟨_, _, hchildren, children_eq_of_unplaced? hnode⟩
    · rcases Nat.lt_or_ge id (children.number (next + 1)).2.2 with hinside | hbehind
      · exact ihChildren hchildren hlater hinside
      · exact ihRest hrest hbehind hlt
  | template tag attributes content children rest ihContent ihChildren ihRest =>
    obtain ⟨hnode, hfragment, hcontent, hchildren, hrest⟩ := h.template
    rcases Nat.eq_or_lt_of_le hle with rfl | hlater
    · exact ⟨_, _, hchildren, children_eq_of_unplaced? hnode⟩
    · rcases Nat.eq_or_lt_of_le hlater with rfl | hlater
      · exact ⟨_, _, hcontent, children_eq_of_unplaced? hfragment⟩
      · rcases Nat.lt_or_ge id (content.number (next + 2)).2.2 with hinside | hbehind
        · exact ihContent hcontent hlater hinside
        · rcases Nat.lt_or_ge id (children.number (content.number (next + 2)).2.2).2.2 with
            hinside | hbehind'
          · exact ihChildren hchildren hbehind hinside
          · exact ihRest hrest hbehind' hlt

/-- A forest has no more nodes than the document that holds it. -/
theorem number_after_le (h : document.Holds next forest) :
    (forest.number next).2.2 ≤ document.nodes.size := by
  obtain ⟨before, after, heq, rfl⟩ := h
  have hsize := congrArg List.length heq
  simp only [List.length_map, List.length_append, Array.length_toList] at hsize
  rw [Forest.number_after]
  omega

theorem length_outer_le (h : document.Holds next forest) :
    (forest.outer next).length ≤ document.nodes.size := by
  -- no number is listed twice, and all are numbers of nodes
  have hsubset : forest.outer next ⊆ List.range document.nodes.size := by
    intro id hmem
    exact List.mem_range.2 ((Forest.mem_outer_bounds hmem).2.trans_le h.number_after_le)
  have hnodup : (forest.outer next).Nodup := (forest.pairwise_outer next).imp Nat.ne_of_lt
  rw [← List.length_range (n := document.nodes.size)]
  exact (List.subperm_of_subset hnodup hsubset).length_le

/-- What is found below a node whose children are the first nodes of a forest. -/
theorem descendants_eq (h : document.Holds next forest)
    (hids : document.children id = (forest.number next).1) :
    document.descendants id = forest.outer next := by
  have hwalk := h.walk_append (document.nodes.size - (forest.outer next).length) []
  have hnone : ∀ count, document.walk count [] = [] := by
    intro count
    cases count <;> rfl
  rwa [Nat.sub_add_cancel h.length_outer_le, List.append_nil, hnone, List.append_nil,
    ← hids] at hwalk

end Holds

/-! ### Lists of nodes -/

/-- Some nodes in the order of their numbers are those of some kind. -/
structure Lists (p : NodeId → Prop) (ids : List NodeId) : Prop where
  increasing : ids.Pairwise (· < ·)
  mem_iff : ∀ id, id ∈ ids ↔ p id

namespace Lists

variable {p q : NodeId → Prop} {others : List NodeId}

/-- There is one such list. -/
theorem unique (h : Lists p ids) (hother : Lists p others) : ids = others := by
  have hperm : ids.Perm others :=
    (List.perm_ext_iff_of_nodup (h.increasing.imp Nat.ne_of_lt)
      (hother.increasing.imp Nat.ne_of_lt)).2 fun id =>
        (h.mem_iff id).trans (hother.mem_iff id).symm
  exact hperm.eq_of_pairwise (fun _ _ _ _ hlt hgt => absurd hlt (Nat.lt_asymm hgt))
    h.increasing hother.increasing

theorem congr (h : Lists p ids) (hiff : ∀ id, p id ↔ q id) : Lists q ids :=
  ⟨h.increasing, fun id => (h.mem_iff id).trans (hiff id)⟩

theorem filter (h : Lists p ids) (accepts : NodeId → Bool) :
    Lists (fun id => p id ∧ accepts id = true) (ids.filter accepts) :=
  ⟨h.increasing.filter _, fun id => by rw [List.mem_filter, h.mem_iff]⟩

/-- The first node of a list has the least number. -/
theorem head?_eq_some_iff (h : Lists p ids) (id : NodeId) :
    ids.head? = some id ↔ IsLeast {id | p id} id := by
  cases ids with
  | nil => exact ⟨fun hhead => by contradiction,
      fun hleast => absurd ((h.mem_iff id).2 hleast.1) List.not_mem_nil⟩
  | cons first rest =>
    have hfirst : IsLeast {id | p id} first := by
      refine ⟨(h.mem_iff first).1 List.mem_cons_self, fun other hother => ?_⟩
      rcases List.mem_cons.1 ((h.mem_iff other).2 hother) with rfl | hrest
      · exact Nat.le_refl _
      · exact Nat.le_of_lt ((List.pairwise_cons.1 h.increasing).1 other hrest)
    rw [List.head?_cons, Option.some_inj]
    exact ⟨fun heq => heq ▸ hfirst, hfirst.unique⟩

theorem find?_eq_some_iff (h : Lists p ids) (accepts : NodeId → Bool) (id : NodeId) :
    ids.find? accepts = some id ↔ IsLeast {id | p id ∧ accepts id = true} id := by
  rw [← List.head?_filter]
  exact (h.filter accepts).head?_eq_some_iff id

/-- There is one node of a kind at most if the list of them has no second one. -/
theorem length_le_one_iff (h : Lists p ids) :
    ids.length ≤ 1 ↔ ∀ a b, p a → p b → a = b := by
  constructor
  · intro hlength a b ha hb
    obtain ⟨single, hids⟩ : ∃ single, ids = [single] :=
      List.length_eq_one_iff.1 (Nat.le_antisymm hlength
        (List.length_pos_of_mem ((h.mem_iff a).2 ha)))
    have hsingle : ∀ id, p id → id = single := fun id hid => by
      rw [← List.mem_singleton, ← hids]
      exact (h.mem_iff id).2 hid
    rw [hsingle a ha, hsingle b hb]
  · intro hunique
    match ids, h with
    | [], _ => exact Nat.zero_le _
    | [_], _ => exact Nat.le_refl _
    | first :: second :: rest, h =>
      have hlt := (List.pairwise_cons.1 h.increasing).1 second List.mem_cons_self
      have heq := hunique first second ((h.mem_iff first).1 (by simp))
        ((h.mem_iff second).1 (by simp))
      exact absurd heq (Nat.ne_of_lt hlt)

end Lists

/-- The searches in a document give nodes in their order. -/
structure Ordered (document : Document) : Prop where
  lists_descendants : ∀ id, Lists (document.Below id) (document.descendants id)
  lists_children : ∀ id, Lists (document.IsParent id) (document.children id)

/-! ### The index of elements -/

end Document

namespace ElementIndex

open Document (Lists)

variable {next : NodeId} {passed nodes : List Node} {index : ElementIndex}

theorem get_cons (name : String) (ids : List NodeId) (index : ElementIndex) (other : String) :
    get ((name, ids) :: index) other = if other = name then ids else index.get other := by
  rw [get, List.lookup_cons]
  by_cases hother : other = name
  · rw [if_pos hother, beq_iff_eq.2 hother]
    rfl
  · rw [if_neg hother, beq_eq_false_iff_ne.2 hother]
    rfl

theorem get_push (name other : String) (id : NodeId) (index : ElementIndex) :
    (index.push name id).get other =
      if other = name then index.get other ++ [id] else index.get other := by
  induction index with
  | nil =>
    rw [push, get_cons]
    rfl
  | cons entry rest ih =>
    obtain ⟨first, ids⟩ := entry
    rw [push]
    -- the entry of the element's own name grows, and any other one stays
    by_cases hname : name = first
    · subst hname
      simp only [if_true, get_cons]
      split <;> rfl
    · by_cases hother : other = first
      · subst hother
        simp only [if_neg hname, if_neg (Ne.symm hname), get_cons, if_true]
      · simp only [if_neg hname, get_cons, if_neg hother, ih]

/-- The index gives the numbers of the elements of a name among some nodes. -/
def Covers (index : ElementIndex) (nodes : List Node) : Prop :=
  ∀ name, Lists (fun id => (nodes[id]?.bind Node.tag?) = some name) (index.get name)

theorem covers_nil : Covers [] [] := by
  refine fun name => ⟨.nil, fun id => ?_⟩
  simp [get]

/-- The node that comes next is entered behind all others. -/
theorem Covers.enterNode (h : index.Covers passed) (node : Node) :
    (index.enterNode passed.length node).Covers (passed ++ [node]) := by
  intro name
  -- the numbers in the index are those of earlier nodes, so the new number belongs at the end
  have hbound : ∀ id ∈ index.get name, id < passed.length := by
    intro id hmem
    obtain ⟨found, hfound, -⟩ := Option.bind_eq_some_iff.1 (((h name).mem_iff id).1 hmem)
    exact (List.getElem?_eq_some_iff.1 hfound).1
  have hother : ∀ id ≠ passed.length,
      ((passed ++ [node])[id]?.bind Node.tag? = some name ↔ id ∈ index.get name) := by
    intro id hne
    rw [(h name).mem_iff]
    rcases Nat.lt_or_gt_of_ne hne with hlt | hgt
    · rw [List.getElem?_append_left hlt]
    · rw [List.getElem?_eq_none (by rw [List.length_append]; exact hgt),
        List.getElem?_eq_none (Nat.le_of_lt hgt)]
  have hself : (passed ++ [node])[passed.length]?.bind Node.tag? = node.tag? := by
    rw [List.getElem?_concat_length, Option.bind_some]
  by_cases htag : node.tag? = some name
  · have hget : (index.enterNode passed.length node).get name =
        index.get name ++ [passed.length] := by
      rw [ElementIndex.enterNode, htag, get_push, if_pos rfl]
    rw [hget]
    refine ⟨?_, fun id => ?_⟩
    · refine List.pairwise_append.2 ⟨(h name).increasing, List.pairwise_singleton _ _, ?_⟩
      intro a ha b hb
      rw [List.mem_singleton.1 hb]
      exact hbound a ha
    · rw [List.mem_append, List.mem_singleton]
      by_cases hid : id = passed.length
      · rw [hid, hself]
        exact iff_of_true (.inr rfl) htag
      · rw [hother id hid, or_iff_left hid]
  · have hget : (index.enterNode passed.length node).get name = index.get name := by
      rw [ElementIndex.enterNode]
      cases hfound : node.tag? with
      | none => rfl
      | some found =>
        have hne : name ≠ found := fun heq => htag (hfound.trans (congrArg some heq.symm))
        simp only [get_push, if_neg hne]
    rw [hget]
    -- the node has another name or none, and the numbers of this name stay as they are
    refine ⟨(h name).increasing, fun id => ?_⟩
    by_cases hid : id = passed.length
    · rw [hid, hself]
      exact iff_of_false (fun hmem => Nat.lt_irrefl _ (hbound _ hmem)) htag
    · exact (hother id hid).symm

theorem Covers.enter (h : index.Covers passed) (nodes : List Node) :
    (index.enter passed.length nodes).Covers (passed ++ nodes) := by
  induction nodes generalizing passed index with
  | nil => rwa [List.append_nil]
  | cons node nodes ih =>
    have hnode := ih (h.enterNode node)
    rwa [List.length_append, List.append_assoc] at hnode

end ElementIndex

namespace Document

theorem covers_elementIndex (document : Document) :
    document.elementIndex.Covers document.nodes.toList :=
  ElementIndex.covers_nil.enter _

theorem lists_elementsNamed (document : Document) (name : String) :
    Lists (fun id => document.tagName? id = some name) (document.elementsNamed name) := by
  refine (document.covers_elementIndex name).congr fun id => ?_
  rw [tagName?, node?, Array.getElem?_toList]

/-! ### Parsed documents -/

theorem map_unplaced_ofForest (url contents : String) (forest : Forest)
    (spans : Array Span.TagSpan) :
    (ofForest url contents forest spans).nodes.toList.map Node.unplaced =
      ⟨.document, (forest.number 1).1, none⟩ :: (forest.number 1).2.1 := by
  have hnodes := map_placeElements (f := Node.unplaced) (fun _ _ => rfl) (nodesOf forest)
    (Span.Pairing.claims 0 (spans.toList.map (·.name)) ((nodesOf forest).filterMap (·.tag?)))
  rw [nodesOf, List.map_cons, forest.map_unplaced_number] at hnodes
  exact hnodes

theorem holds_ofForest (url contents : String) (forest : Forest) (spans : Array Span.TagSpan) :
    (ofForest url contents forest spans).Holds 1 forest :=
  ⟨[_], [], by rw [map_unplaced_ofForest, List.append_nil]; rfl, rfl⟩

theorem unplaced?_root (url contents : String) (forest : Forest) (spans : Array Span.TagSpan) :
    (ofForest url contents forest spans).unplaced? root =
      some ⟨.document, (forest.number 1).1, none⟩ :=
  Holds.unplaced?_eq [] (map_unplaced_ofForest url contents forest spans)

/-- The nodes below a node of a document are numbered like a forest. -/
theorem exists_holds_ofForest (url contents : String) (forest : Forest)
    (spans : Array Span.TagSpan) (id : NodeId) :
    ∃ first below, (ofForest url contents forest spans).Holds first below ∧
      (ofForest url contents forest spans).children id = (below.number first).1 := by
  have hholds := holds_ofForest url contents forest spans
  rcases Nat.eq_zero_or_pos id with rfl | hpos
  · exact ⟨1, forest, hholds, children_eq_of_unplaced? (unplaced?_root _ _ _ _)⟩
  · rcases Nat.lt_or_ge id (forest.number 1).2.2 with hlt | hge
    · exact hholds.exists_holds_children hpos hlt
    · -- there is no such node
      have hnone : (ofForest url contents forest spans).unplaced? id = none := by
        rw [unplaced?_eq_getElem?, map_unplaced_ofForest, List.getElem?_eq_none_iff,
          List.length_cons, Nat.add_comm, ← Forest.number_after]
        exact hge
      refine ⟨0, .nil, .nil _, ?_⟩
      rw [children_eq_getD, hnone]
      rfl

/-- The search below a node of a document finds the nodes below it, in their order. -/
theorem lists_descendants_ofForest (url contents : String) (forest : Forest)
    (spans : Array Span.TagSpan) (id : NodeId) :
    Lists ((ofForest url contents forest spans).Below id)
      ((ofForest url contents forest spans).descendants id) := by
  obtain ⟨first, below, hholds, hids⟩ := exists_holds_ofForest url contents forest spans id
  rw [hholds.descendants_eq hids]
  refine ⟨below.pairwise_outer first, fun d => ?_⟩
  rw [hholds.mem_outer_iff, ← hids, Below, Relation.TransGen.head'_iff]
  rfl

theorem ordered_parse (url contents : String) : (parse url contents).Ordered :=
  ⟨lists_descendants_ofForest _ _ _ _,
    fun id => ⟨(isTree_parse url contents).pairwise_children id, fun _ => Iff.rfl⟩⟩

end Document

end ElementLint
