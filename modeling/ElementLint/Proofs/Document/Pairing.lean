import ElementLint.Document.Query
import ElementLint.Proofs.Span.Nesting
import ElementLint.Proofs.Span.Pairing

/-!
# The spans of the elements of a document

The elements of a document in preorder are those of its forest
(`Document.filterMap_tag?_nodesOf`), and they take their spans in that order
(`Document.elements_ofForest`). What `Span.Pairing` says about the claims of a list of names holds
of them: no span is shared, every span has the name of its element, and the elements that no text
may leave out have the leftmost spans that they can have together (`Document.ofForest_leftmost`).
-/

namespace ElementLint

open Markup ElementLint.Span Text

/-- The tag names of the elements of a forest in preorder; the content of a template comes before
its children. -/
def Markup.Forest.tags : Forest → List String
  | .nil => []
  | .leaf _ rest => rest.tags
  | .element tag _ children rest => tag :: (children.tags ++ rest.tags)
  | .template tag _ content children rest => tag :: (content.tags ++ (children.tags ++ rest.tags))

@[simp]
theorem Node.tag?_toNode (single : Leaf) : single.toNode.tag? = none := by
  cases single <;> rfl

@[simp]
theorem Node.tag?_element (tag : String) (attributes : List Attribute) (content : Option NodeId)
    (children : List NodeId) (span : Option Nat) :
    (Node.mk (.element tag attributes content) children span).tag? = some tag := rfl

theorem Node.tag?_withSpan (node : Node) (span : Option Nat) :
    { node with span }.tag? = node.tag? := rfl

@[simp]
theorem Node.tag?_fragment (children : List NodeId) (span : Option Nat) :
    (Node.mk .fragment children span).tag? = none := rfl

/-- The numbering goes through the elements in preorder. -/
theorem Markup.Forest.filterMap_tag?_number (forest : Forest) (next : Nat) :
    (forest.number next).2.1.filterMap (·.tag?) = forest.tags := by
  induction forest generalizing next with
  | nil => rfl
  | leaf single rest ih => simp [number, tags, ih]
  | element tag attributes children rest ihChildren ihRest =>
    simp [number, tags, ihChildren, ihRest]
  | template tag attributes content children rest ihContent ihChildren ihRest =>
    simp [number, tags, List.filterMap_cons, ihContent, ihChildren, ihRest]

/-- The tag name of an element and its place in the list of spans. -/
def Node.element? (node : Node) : Option (String × Option Nat) :=
  node.tag?.map fun tag => (tag, node.span)

namespace Document

variable {forest : Forest} {spans : Array TagSpan}

/-- The elements of a document in preorder, each with its place in the list of spans. -/
def elements (document : Document) : List (String × Option Nat) :=
  document.nodes.toList.filterMap Node.element?

theorem filterMap_tag?_nodesOf (forest : Forest) :
    (nodesOf forest).filterMap (·.tag?) = forest.tags :=
  forest.filterMap_tag?_number 1

/-- The elements among some nodes get what is claimed for them. -/
theorem filterMap_element?_placeElements (nodes : List Node) (claimed : List (Option Nat))
    (h : claimed.length = (nodes.filterMap (·.tag?)).length) :
    (placeElements nodes claimed).filterMap Node.element? =
      (nodes.filterMap (·.tag?)).zip claimed := by
  induction nodes generalizing claimed with
  | nil => rfl
  | cons node nodes ih =>
    cases htag : node.tag? with
    | none =>
      -- a node that is no element leaves the claims to the others
      rw [List.filterMap_cons_none htag] at h ⊢
      have hnode : node.element? = none := by rw [Node.element?, htag, Option.map_none]
      have hplace : placeElements (node :: nodes) claimed =
          node :: placeElements nodes claimed := by
        simp [placeElements, htag]
      rw [hplace, List.filterMap_cons_none hnode, ih claimed h]
    | some tag =>
      rw [List.filterMap_cons_some htag] at h ⊢
      obtain - | ⟨claim, claimed⟩ := claimed
      · simp at h
      · have hnode : { node with span := claim }.element? = some (tag, claim) := by
          rw [Node.element?, Node.tag?_withSpan, htag, Option.map_some]
        have hplace : placeElements (node :: nodes) (claim :: claimed) =
            { node with span := claim } :: placeElements nodes claimed := by
          simp [placeElements, htag]
        rw [hplace, List.filterMap_cons_some hnode, ih claimed (by simpa using h),
          List.zip_cons_cons]

/-- The elements of a document take their spans in preorder. -/
theorem elements_ofForest (url contents : String) (forest : Forest) (spans : Array TagSpan) :
    (ofForest url contents forest spans).elements =
      forest.tags.zip (Pairing.claims 0 (spans.toList.map (·.name)) forest.tags) := by
  rw [ofForest, elements, filterMap_tag?_nodesOf]
  have hclaims := Pairing.claimsFrom_claims (spans.toList.map (·.name)) forest.tags 0
  rw [List.drop_zero] at hclaims
  rw [← filterMap_tag?_nodesOf forest] at hclaims ⊢
  exact filterMap_element?_placeElements (nodesOf forest) _ hclaims.length_eq

/-- Later elements have later spans. -/
theorem pairwise_span_elements (url contents : String) (forest : Forest) (spans : Array TagSpan) :
    ((ofForest url contents forest spans).elements.filterMap Prod.snd).Pairwise (· < ·) := by
  have hclaims : Pairing.ClaimsFrom (spans.toList.map (·.name)) 0 forest.tags
      (Pairing.claims 0 (spans.toList.map (·.name)) forest.tags) :=
    Pairing.claimsFrom_claims _ forest.tags 0
  have h := hclaims.increasing
  rw [← List.map_snd_zip hclaims.length_eq.le, List.filterMap_map] at h
  rw [elements_ofForest]
  exact h

/-- The elements of a document share no span and have spans of their names in order. Where the
elements that no text may leave out have spans in order at all, each of them has one, the leftmost
that any such pairing gives it. -/
theorem ofForest_leftmost (url contents : String) (forest : Forest) (spans : Array TagSpan) :
    let elements := (ofForest url contents forest spans).elements
    let written := forest.tags.filter (!Pairing.mayBeImplied ·)
    let spanNames := spans.toList.map (·.name)
    elements.map Prod.fst = forest.tags ∧
      (elements.filterMap Prod.snd).Pairwise (· < ·) ∧
      (∀ tag i, (tag, some i) ∈ elements →
        ∃ span, spans[i]? = some span ∧ sameName span.name tag = true) ∧
      (Pairing.CaseMatters forest.tags →
        (written.map (lower ·.toList)).Sublist (spanNames.map (lower ·.toList)) →
        ∃ taken : List Nat,
          (elements.filter (fun element => !Pairing.mayBeImplied element.1)).map Prod.snd =
            taken.map some ∧
          Pairing.IsPairing spanNames written taken ∧
          ∀ other, Pairing.IsPairing spanNames written other →
            List.Forall₂ (· ≤ ·) taken other) := by
  intro elements written spanNames
  have helements : elements = forest.tags.zip (Pairing.claims 0 spanNames forest.tags) :=
    elements_ofForest url contents forest spans
  have hclaims : Pairing.ClaimsFrom spanNames 0 forest.tags
      (Pairing.claims 0 spanNames forest.tags) :=
    Pairing.claimsFrom_claims spanNames forest.tags 0
  refine ⟨?_, pairwise_span_elements url contents forest spans, ?_, ?_⟩
  · rw [helements, List.map_fst_zip hclaims.length_eq.ge]
  · intro tag i hmem
    rw [helements] at hmem
    obtain ⟨spanName, hi, hsame⟩ := hclaims.names_of_mem tag i hmem
    rw [List.getElem?_map, Option.map_eq_some_iff] at hi
    obtain ⟨span, hi, rfl⟩ := hi
    exact ⟨span, by simpa using hi, hsame⟩
  · intro hcase hsublist
    obtain ⟨other, hother⟩ := Pairing.exists_isPairing hsublist
    rw [helements]
    exact Pairing.exists_leftmost hcase hother

/-- A table row in a template takes a span and a body that the text leaves out takes none; the
paragraph after them has the first of two spans. -/
theorem ofForest_leftmost_template :
    let forest : Forest := .element "html" []
      (.template "a-b" [] (.element "tr" [] .nil .nil) .nil (.element "body" []
        (.element "p" [] .nil .nil) .nil)) .nil
    let spanNames := ["html", "x", "A-B", "tr", "p", "p"]
    let spans := (spanNames.map fun name => TagSpan.mk name 0 0 0 0 []).toArray
    (ofForest "" "" forest spans).elements =
        [("html", some 0), ("a-b", some 2), ("tr", some 3), ("body", none), ("p", some 4)] ∧
      Pairing.CaseMatters forest.tags ∧
      ∀ other, Pairing.IsPairing spanNames ["a-b", "p"] other →
        List.Forall₂ (· ≤ ·) [2, 4] other := by
  intro forest spanNames spans
  have helements : (ofForest "" "" forest spans).elements =
      [("html", some 0), ("a-b", some 2), ("tr", some 3), ("body", none), ("p", some 4)] := by
    decide +kernel
  have hcase : Pairing.CaseMatters forest.tags := by decide +kernel
  have hsublist : ((forest.tags.filter (!Pairing.mayBeImplied ·)).map (lower ·.toList)).Sublist
      ((spans.toList.map (·.name)).map (lower ·.toList)) := by decide +kernel
  obtain ⟨-, -, -, hleftmost⟩ := ofForest_leftmost "" "" forest spans
  obtain ⟨taken, htaken, -, hleast⟩ := hleftmost hcase hsublist
  have htaken' : taken = [2, 4] := by
    refine List.map_injective_iff.2 (fun _ _ => Option.some.inj) (htaken.symm.trans ?_)
    rw [helements]
    decide +kernel
  exact ⟨helements, hcase, fun other hother => htaken' ▸ hleast other hother⟩

variable {url contents : String} {id later : NodeId}

/-- The start tags of the elements of a document stand in the text in the order of the elements. -/
def SpansOrdered (document : Document) : Prop :=
  ∀ id later span laterSpan, id < later → document.isElement id = true →
    document.isElement later = true → document.span? id = some span →
    document.span? later = some laterSpan → span.startTagEnd ≤ laterSpan.start

/-- Of two elements the later one has the later span. -/
theorem span_lt_of_lt {forest : Forest} {spans : Array TagSpan} {node laterNode : Node} {i j : Nat}
    (hlt : id < later) (hnode : (ofForest url contents forest spans).nodes[id]? = some node)
    (hlaterNode : (ofForest url contents forest spans).nodes[later]? = some laterNode)
    (htag : node.tag?.isSome = true) (hlaterTag : laterNode.tag?.isSome = true)
    (hi : node.span = some i) (hj : laterNode.span = some j) : i < j := by
  have hordered := pairwise_span_elements url contents forest spans
  rw [elements, List.filterMap_filterMap, List.pairwise_filterMap, List.pairwise_iff_getElem]
    at hordered
  have helement {node : Node} {i : Nat} (htag : node.tag?.isSome = true)
      (hi : node.span = some i) : node.element?.bind Prod.snd = some i := by
    obtain ⟨tag, htag⟩ := Option.isSome_iff_exists.1 htag
    rw [Node.element?, htag, Option.map_some, Option.bind_some, hi]
  obtain ⟨hsize, rfl⟩ := Array.getElem?_eq_some_iff.1 hnode
  obtain ⟨hsize', rfl⟩ := Array.getElem?_eq_some_iff.1 hlaterNode
  exact hordered id later hsize hsize' hlt i (helement htag hi) j (helement hlaterTag hj)

theorem spansOrdered_parse (url contents : String) : (parse url contents).SpansOrdered := by
  intro id later span laterSpan hlt hid hlater hspan hlaterSpan
  obtain ⟨node, hnode, hspan⟩ := Option.bind_eq_some_iff.1 hspan
  obtain ⟨i, hi, hspan⟩ := Option.bind_eq_some_iff.1 hspan
  obtain ⟨laterNode, hlaterNode, hlaterSpan⟩ := Option.bind_eq_some_iff.1 hlaterSpan
  obtain ⟨j, hj, hlaterSpan⟩ := Option.bind_eq_some_iff.1 hlaterSpan
  rw [isElement, hnode, Option.any_some] at hid
  rw [isElement, hlaterNode, Option.any_some] at hlater
  have hij := span_lt_of_lt hlt hnode hlaterNode hid hlater hi hj
  exact (Nesting.wellNested_scan contents.toList).startTagEnd_le i j span laterSpan hij hspan
    hlaterSpan

end Document

end ElementLint
