import ElementLint.Markup.Draft
import ElementLint.Proofs.Document.Pairing

/-!
# Trees that grow

The tags of the forest of a draft depend on the outline of its nodes alone: on their kinds, their
tag names and their children (`Draft.outline?`). `Draft.Holds` says which tags stand below some
nodes in preorder, and `Draft.Holds.tags_forestOf` that they are those of the forest. Nodes that are
added behind the children of a node change nothing else (`Draft.Grows`).
-/

namespace ElementLint.Markup

/-- What a node is to the tags of a forest. -/
inductive Shape where
  | root
  | leaf
  | element (tag : String)
  | template
  deriving DecidableEq, Repr

/-- What a kind of nodes is to the tags of a forest. -/
def DraftKind.shape : DraftKind → Shape
  | .root => .root
  | .leaf _ => .leaf
  | .element name _ none => .element name.tag
  | .element _ _ (some _) => .template

/-- The shape of a node and its children. -/
def DraftNode.outline (node : DraftNode) : Shape × List DraftId :=
  (node.kind.shape, node.children.toList)

namespace Draft

/-- The outline of the node of a number. -/
def outline? (draft : Draft) (id : DraftId) : Option (Shape × List DraftId) :=
  (draft.node? id).map (·.outline)

variable {draft draft' draft'' : Draft} {id parent : DraftId} {shape : Shape}
  {ids children : List DraftId} {tags tags' : List String} {tag : String} {first : Nat}

/-! ### Outlines -/

theorem lt_size_of_outline? (h : draft.outline? id = some (shape, children)) :
    id < draft.nodes.size := by
  obtain ⟨node, hnode, -⟩ := Option.map_eq_some_iff.1 h
  exact (Array.getElem?_eq_some_iff.1 hnode).1

/-- New children of an element that is no template go to the element itself. -/
theorem contentOf_eq_self (h : draft.outline? id = some (.element tag, children)) :
    draft.contentOf id = id := by
  obtain ⟨⟨kind, _, _⟩, hnode, hshape⟩ := Option.map_eq_some_iff.1 h
  rw [contentOf, hnode]
  cases kind with
  | element name attributes content =>
    cases content with
    | none => rfl
    | some content => simp [DraftNode.outline, DraftKind.shape] at hshape
  | root => rfl
  | leaf _ => rfl

theorem outline?_create (kind : DraftKind) :
    (draft.create kind).1.outline? id =
      if id = draft.nodes.size then some (kind.shape, []) else draft.outline? id := by
  rw [outline?, node?, create, Array.getElem?_push]
  split <;> rfl

theorem outline?_modify (change : DraftNode → DraftNode) :
    (draft.modify parent change).outline? id =
      if id = parent then (draft.node? id).map fun node => (change node).outline
      else draft.outline? id := by
  rw [outline?, node?, modify, Array.getElem?_modify]
  by_cases h : parent = id
  · rw [if_pos h, if_pos h.symm, Option.map_map]
    rfl
  · rw [if_neg h, if_neg fun heq => h heq.symm]
    rfl

/-- A change of nodes that keeps their outlines keeps those of a draft. -/
theorem outline?_modify_eq_self {change : DraftNode → DraftNode}
    (h : ∀ node, (change node).outline = node.outline) :
    (draft.modify parent change).outline? id = draft.outline? id := by
  rw [outline?_modify]
  split
  · rw [outline?, funext h]
  · rfl

@[simp]
theorem size_modify (change : DraftNode → DraftNode) :
    (draft.modify parent change).nodes.size = draft.nodes.size := by
  simp [modify]

/-- A node that is put inside another one is its last child. -/
theorem outline?_insert_inside (new : DraftId) :
    (draft.insert (.inside parent) new).outline? id =
      if id = parent then (draft.outline? id).map fun outline => (outline.1, outline.2 ++ [new])
      else draft.outline? id := by
  rw [insert, outline?_modify_eq_self, outline?_modify]
  swap
  · exact fun _ => rfl
  split
  · rw [outline?, Option.map_map]
    congr 1
    funext node
    simp [DraftNode.outline]
  · rfl

@[simp]
theorem size_insert_inside (new : DraftId) :
    (draft.insert (.inside parent) new).nodes.size = draft.nodes.size := by
  simp [insert]

/-! ### Tags below nodes -/

/-- The tags that stand in preorder at and below some nodes. The numbers of these nodes are `first`
or more, and what stands below a node has greater numbers. -/
inductive Holds (draft : Draft) : Nat → List DraftId → List String → Prop
  | nil {first : Nat} : Holds draft first [] []
  | leaf {first : Nat} {id : DraftId} {ids children : List DraftId} {tags : List String} :
      first ≤ id → draft.outline? id = some (.leaf, children) →
      Holds draft first ids tags → Holds draft first (id :: ids) tags
  | element {first : Nat} {id : DraftId} {ids children : List DraftId} {tag : String}
      {inner tags : List String} :
      first ≤ id → draft.outline? id = some (.element tag, children) →
      Holds draft (id + 1) children inner → Holds draft first ids tags →
      Holds draft first (id :: ids) (tag :: (inner ++ tags))

namespace Holds

theorem mono (h : draft.Holds first ids tags) {lower : Nat} (hle : lower ≤ first) :
    draft.Holds lower ids tags := by
  induction h with
  | nil => exact .nil
  | leaf hfirst hid _ ih => exact .leaf (hle.trans hfirst) hid (ih hle)
  | element hfirst hid hchildren _ _ ih =>
    exact .element (hle.trans hfirst) hid hchildren (ih hle)

theorem append {ids' : List DraftId} (h : draft.Holds first ids tags)
    (h' : draft.Holds first ids' tags') : draft.Holds first (ids ++ ids') (tags ++ tags') := by
  induction h with
  | nil => exact h'
  | leaf hfirst hid _ ih => exact .leaf hfirst hid (ih h')
  | element hfirst hid hchildren _ _ ih =>
    rw [List.cons_append, List.cons_append, List.append_assoc]
    exact .element hfirst hid hchildren (ih h')

/-- What stands below some nodes stays there as long as these keep their outlines. -/
theorem of_kept (h : draft.Holds first ids tags)
    (hkept : ∀ id, first ≤ id → id < draft.nodes.size → draft'.outline? id = draft.outline? id) :
    draft'.Holds first ids tags := by
  induction h with
  | nil => exact .nil
  | leaf hfirst hid _ ih =>
    exact .leaf hfirst ((hkept _ hfirst (lt_size_of_outline? hid)).trans hid) (ih hkept)
  | element hfirst hid _ _ ihChildren ih =>
    refine .element hfirst ((hkept _ hfirst (lt_size_of_outline? hid)).trans hid) ?_ (ih hkept)
    exact ihChildren fun id hlt => hkept id (hfirst.trans (Nat.le_of_succ_le hlt))

/-- The tags that stand below some nodes are those of their forest. -/
theorem tags_forestOf (h : draft.Holds first ids tags) {depth : Nat}
    (hdepth : draft.nodes.size < depth + first) : (draft.forestOf depth ids).tags = tags := by
  induction h generalizing depth with
  | nil => cases depth <;> rfl
  | @leaf first id ids children tags hfirst hid _ ih =>
    -- a node that has been reached leaves the search one step at least
    have hlt : first < draft.nodes.size := hfirst.trans_lt (lt_size_of_outline? hid)
    obtain ⟨depth, rfl⟩ : ∃ more, depth = more + 1 := Nat.exists_eq_succ_of_ne_zero (by omega)
    obtain ⟨⟨kind, _, _⟩, hnode, hshape⟩ := Option.map_eq_some_iff.1 hid
    have hrest := ih hdepth
    rw [forestOf] at hrest ⊢
    rw [List.foldr_cons, hnode]
    cases kind with
    | leaf leaf => exact hrest
    | root => simp [DraftNode.outline, DraftKind.shape] at hshape
    | element _ _ content => cases content <;> simp [DraftNode.outline, DraftKind.shape] at hshape
  | @element first id ids children tag inner tags hfirst hid _ _ ihChildren ih =>
    have hlt : first < draft.nodes.size := hfirst.trans_lt (lt_size_of_outline? hid)
    obtain ⟨depth, rfl⟩ : ∃ more, depth = more + 1 := Nat.exists_eq_succ_of_ne_zero (by omega)
    obtain ⟨⟨kind, _, _⟩, hnode, hshape⟩ := Option.map_eq_some_iff.1 hid
    -- the children have larger numbers, so one step less is enough for them
    have hinner : (draft.forestOf depth children).tags = inner := ihChildren (by omega)
    have hrest := ih hdepth
    rw [forestOf] at hrest ⊢
    rw [List.foldr_cons, hnode]
    cases kind with
    | element name attributes content =>
      cases content with
      | none =>
        simp only [DraftNode.outline, DraftKind.shape, Prod.mk.injEq, Shape.element.injEq]
          at hshape
        obtain ⟨rfl, rfl⟩ := hshape
        rw [← hinner, ← hrest]
        rfl
      | some content => simp [DraftNode.outline, DraftKind.shape] at hshape
    | root => simp [DraftNode.outline, DraftKind.shape] at hshape
    | leaf _ => simp [DraftNode.outline, DraftKind.shape] at hshape

end Holds

/-- The tags of the forest of a draft whose document holds the nodes. -/
theorem tags_toForest (hdocument : draft.outline? document = some (.root, ids))
    (h : draft.Holds 0 ids tags) : draft.toForest.tags = tags := by
  obtain ⟨node, hnode, houtline⟩ := Option.map_eq_some_iff.1 hdocument
  have hchildren : (draft.children document).toList = ids := by
    rw [children, hnode]
    exact congrArg Prod.snd houtline
  rw [toForest, hchildren]
  exact h.tags_forestOf (by omega)

/-! ### Growth -/

/-- A draft with new children of a node at the end and these tags at and below them. -/
structure Grows (draft draft' : Draft) (parent : DraftId) (tags : List String) : Prop where
  size_le : draft.nodes.size ≤ draft'.nodes.size
  kept : ∀ id, id ≠ parent → id < draft.nodes.size → draft'.outline? id = draft.outline? id
  grown : ∃ new, (∀ shape children, draft.outline? parent = some (shape, children) →
      draft'.outline? parent = some (shape, children ++ new)) ∧
    draft'.Holds draft.nodes.size new tags

namespace Grows

theorem refl (draft : Draft) (parent : DraftId) : Grows draft draft parent [] where
  size_le := le_rfl
  kept _ _ _ := rfl
  grown := ⟨[], fun _ _ h => by rw [h, List.append_nil], .nil⟩

/-- New children and then more of them are new children. -/
theorem trans (h : Grows draft draft' parent tags) (h' : Grows draft' draft'' parent tags')
    (hparent : parent < draft.nodes.size) : Grows draft draft'' parent (tags ++ tags') := by
  obtain ⟨new, hchildren, hnew⟩ := h.grown
  obtain ⟨new', hchildren', hnew'⟩ := h'.grown
  refine ⟨h.size_le.trans h'.size_le, fun id hne hlt => ?_, new ++ new', ?_, ?_⟩
  · rw [h'.kept id hne (hlt.trans_le h.size_le), h.kept id hne hlt]
  · intro shape children hoffspring
    rw [hchildren' _ _ (hchildren _ _ hoffspring), List.append_assoc]
  · -- the first ones are kept, since they are not the parent
    have hkept := hnew.of_kept fun id hle hlt => h'.kept id (hparent.trans_le hle).ne' hlt
    exact hkept.append (hnew'.mono h.size_le)

/-- A change that keeps all outlines adds nothing. -/
theorem of_outline? (hsize : draft'.nodes.size = draft.nodes.size)
    (h : ∀ id, draft'.outline? id = draft.outline? id) : Grows draft draft' parent [] where
  size_le := hsize.ge
  kept id _ _ := h id
  grown := ⟨[], fun _ _ hparent => by rw [h, hparent, List.append_nil], .nil⟩

end Grows

/-- Puts a new node at the end of the children of a node. -/
def addInside (draft : Draft) (parent : DraftId) (kind : DraftKind) : Draft :=
  (draft.create kind).1.insert (.inside parent) draft.nodes.size

@[simp]
theorem size_addInside (kind : DraftKind) :
    (draft.addInside parent kind).nodes.size = draft.nodes.size + 1 := by
  simp [addInside, create]

theorem outline?_addInside (hparent : parent < draft.nodes.size) (kind : DraftKind) :
    (draft.addInside parent kind).outline? id =
      if id = draft.nodes.size then some (kind.shape, [])
      else if id = parent then
        (draft.outline? id).map fun outline => (outline.1, outline.2 ++ [draft.nodes.size])
      else draft.outline? id := by
  rw [addInside, outline?_insert_inside, outline?_create]
  by_cases hnew : id = draft.nodes.size
  · rw [if_pos hnew, if_pos hnew, if_neg]
    exact hnew ▸ hparent.ne'
  · rw [if_neg hnew, if_neg hnew]

namespace Grows

/-- A new leaf. -/
theorem addLeaf (hparent : parent < draft.nodes.size) (leaf : Leaf) :
    Grows draft (draft.addInside parent (.leaf leaf)) parent [] := by
  refine ⟨by simp, fun id hne hlt => ?_, [draft.nodes.size], ?_, ?_⟩
  · rw [outline?_addInside hparent, if_neg hlt.ne, if_neg hne]
  · intro shape children h
    rw [outline?_addInside hparent, if_neg hparent.ne, if_pos rfl, h]
    rfl
  · have hself : (draft.addInside parent (.leaf leaf)).outline? draft.nodes.size =
        some (.leaf, []) := by
      rw [outline?_addInside hparent, if_pos rfl]
      rfl
    exact .leaf le_rfl hself .nil

/-- A new element together with what grows below it. -/
theorem addElement (hparent : parent < draft.nodes.size) (name : ElementName)
    (attributes : List Attribute)
    (h : Grows (draft.addInside parent (.element name attributes none)) draft' draft.nodes.size
      tags) : Grows draft draft' parent (name.tag :: tags) := by
  obtain ⟨hsize, hkept, new, hchildren, hnew⟩ := h
  rw [size_addInside] at hsize hkept hnew
  refine ⟨Nat.le_of_succ_le hsize, fun id hne hlt => ?_, [draft.nodes.size], ?_, ?_⟩
  · rw [hkept id hlt.ne (Nat.lt_succ_of_lt hlt), outline?_addInside hparent, if_neg hlt.ne,
      if_neg hne]
  · intro shape children h
    rw [hkept parent hparent.ne (Nat.lt_succ_of_lt hparent), outline?_addInside hparent,
      if_neg hparent.ne, if_pos rfl, h]
    rfl
  · have hself := hchildren (.element name.tag) [] (by
      rw [outline?_addInside hparent, if_pos rfl]
      rfl)
    rw [← List.append_nil tags]
    exact .element le_rfl hself hnew .nil

/-- New text is a new leaf or the end of an old one. -/
theorem insertText (hparent : parent < draft.nodes.size) (run : String) :
    Grows draft (draft.insertText (.inside parent) run) parent [] := by
  have hadd : Grows draft (insertText.addText (.inside parent) run draft) parent [] :=
    addLeaf hparent (.text run)
  rw [Draft.insertText]
  split
  · exact hadd
  · split
    · refine of_outline? (size_modify _) fun id => outline?_modify_eq_self fun node => ?_
      split
      · next hkind => rw [DraftNode.outline, DraftNode.outline, hkind]; rfl
      · rfl
    · exact hadd

end Grows

end Draft

end ElementLint.Markup
