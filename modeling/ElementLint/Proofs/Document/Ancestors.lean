import ElementLint.Proofs.Document.Descent

/-!
# Ancestors

A node has one parent at most, so the nodes above a node stand above each other
(`Document.IsTree.below_or_below`). The content of a template is the child of no node, which is why
nothing stands below the content of two templates (`Document.IsTree.content_unique`).
-/

namespace ElementLint.Document

variable {document : Document} {a b c template template' content content' : NodeId}

namespace IsTree

variable (htree : document.IsTree)
include htree

theorem lt_of_below (h : document.Below a b) : a < b := by
  induction h with
  | single hchild => exact htree.lt_of_mem_children hchild
  | tail _ hchild ih => exact ih.trans (htree.lt_of_mem_children hchild)

/-- Of two nodes above a node one stands above the other. -/
theorem below_or_below (ha : document.Below a c) (hb : document.Below b c) :
    a = b ∨ document.Below a b ∨ document.Below b a := by
  -- the steps from a child to its parent lead to one node each
  have hunique : Relator.RightUnique (Function.swap document.IsParent) :=
    fun _ _ _ h h' => htree.eq_of_mem_children h h'
  have htotal := Relation.ReflTransGen.total_of_right_unique hunique
    (Relation.reflTransGen_swap.2 ha.to_reflTransGen)
    (Relation.reflTransGen_swap.2 hb.to_reflTransGen)
  rcases htotal with h | h
  · rcases Relation.reflTransGen_iff_eq_or_transGen.1 (Relation.reflTransGen_swap.1 h) with
      heq | hbelow
    · exact .inl heq
    · exact .inr (.inr hbelow)
  · rcases Relation.reflTransGen_iff_eq_or_transGen.1 (Relation.reflTransGen_swap.1 h) with
      heq | hbelow
    · exact .inl heq.symm
    · exact .inr (.inl hbelow)

/-- The content of a template stands below no node. -/
theorem not_below_content (h : document.templateContent? template = some content) (a : NodeId) :
    ¬ document.Below a content := by
  intro hbelow
  obtain ⟨parent, -, hchild⟩ := Relation.TransGen.tail'_iff.1 hbelow
  exact htree.not_mem_children_of_templateContent? h parent hchild

/-- A node stands below the content of one template only. -/
theorem content_unique (h : document.templateContent? template = some content)
    (h' : document.templateContent? template' = some content') (hbelow : document.Below content c)
    (hbelow' : document.Below content' c) : content = content' := by
  -- otherwise one of them would stand below the other
  rcases htree.below_or_below hbelow hbelow' with heq | hcontent | hcontent
  · exact heq
  · exact absurd hcontent (htree.not_below_content h' content)
  · exact absurd hcontent (htree.not_below_content h content')

/-- The content of a template is that of no other one. -/
theorem template_unique (h : document.templateContent? template = some content)
    (h' : document.templateContent? template' = some content) : template = template' :=
  htree.eq_of_standsUnder (standsUnder_of_templateContent? h) (standsUnder_of_templateContent? h')

end IsTree

end ElementLint.Document
