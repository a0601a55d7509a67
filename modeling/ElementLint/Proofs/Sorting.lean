import Mathlib.Data.List.Basic

/-!
# Stable sorting

`IsStableSort` says of a list that it holds the elements of another one in the order of a key, those
of one key in their old order. There is exactly one such list (`IsStableSort.unique`), and it is
what sorting gives (`isStableSort_mergeSort`). Elements may be left out after sorting as well as
before (`IsStableSort.filter`), and one element more in the list is one element more in the sorted
list (`IsStableSort.exists_insert`).
-/

namespace ElementLint

variable {α : Type} {key : α → Nat} {list sorted sorted' before after : List α}

/-- Sorting leaves the order of elements alone that stand in order already. -/
theorem filter_mergeSort_of_pairwise {le : α → α → Bool} {p : α → Bool}
    (trans : ∀ a b c, le a b = true → le b c = true → le a c = true)
    (total : ∀ a b, (le a b || le b a) = true)
    (hordered : (list.filter p).Pairwise (fun a b => le a b = true)) :
    (list.mergeSort le).filter p = list.filter p := by
  have hsublist := (List.sublist_mergeSort trans total hordered List.filter_sublist).filter p
  rw [List.filter_eq_self.2 fun element hmem => (List.mem_filter.1 hmem).2] at hsublist
  have hlength := ((List.mergeSort_perm list le).filter p).length_eq
  exact (hsublist.eq_of_length hlength.symm).symm

/-- A list holds the elements of another one in the order of a key, those of one key in the order
that they have there. -/
structure IsStableSort (key : α → Nat) (list sorted : List α) : Prop where
  ordered : sorted.Pairwise (fun a b => key a ≤ key b)
  filter_eq : ∀ k, sorted.filter (key · == k) = list.filter (key · == k)

/-- Sorting by a key is stable. -/
theorem isStableSort_mergeSort (key : α → Nat) (list : List α) :
    IsStableSort key list (list.mergeSort (fun a b => decide (key a ≤ key b))) := by
  have trans (a b c : α) (hab : decide (key a ≤ key b) = true)
      (hbc : decide (key b ≤ key c) = true) : decide (key a ≤ key c) = true := by
    simp only [decide_eq_true_eq] at hab hbc ⊢
    exact Nat.le_trans hab hbc
  have total (a b : α) : (decide (key a ≤ key b) || decide (key b ≤ key a)) = true := by
    simp only [Bool.or_eq_true, decide_eq_true_eq]
    exact Nat.le_total _ _
  refine ⟨(List.pairwise_mergeSort trans total list).imp of_decide_eq_true, fun k => ?_⟩
  refine filter_mergeSort_of_pairwise trans total ?_
  refine List.pairwise_of_forall_mem_list fun a ha b hb => decide_eq_true ?_
  have hkey : key a = k := beq_iff_eq.1 (List.mem_filter.1 ha).2
  have hkey' : key b = k := beq_iff_eq.1 (List.mem_filter.1 hb).2
  exact Nat.le_of_eq (hkey.trans hkey'.symm)

namespace IsStableSort

/-- There is only one way to sort a list. -/
theorem unique (h : IsStableSort key list sorted) (h' : IsStableSort key list sorted') :
    sorted = sorted' := by
  obtain ⟨hordered, hfilter⟩ := h
  obtain ⟨hordered', hfilter'⟩ := h'
  replace hfilter (k : Nat) := (hfilter k).trans (hfilter' k).symm
  clear hfilter'
  induction sorted generalizing sorted' with
  | nil =>
    refine (List.eq_nil_iff_forall_not_mem.2 fun element hmem => ?_).symm
    have hnil := (hfilter (key element)).symm
    rw [List.filter_nil, List.filter_eq_nil_iff] at hnil
    exact hnil element hmem (by simp)
  | cons first rest ih =>
    obtain ⟨hfirst, hrest⟩ := List.pairwise_cons.1 hordered
    have hmem : first ∈ sorted' := by
      have := (hfilter (key first)).symm
      rw [List.filter_cons_of_pos (by simp)] at this
      exact (List.mem_filter.1 (this ▸ List.mem_cons_self)).1
    obtain ⟨first', rest', rfl⟩ := List.exists_cons_of_ne_nil (List.ne_nil_of_mem hmem)
    obtain ⟨hfirst', hrest'⟩ := List.pairwise_cons.1 hordered'
    -- neither of the two first elements can come before the other one
    have hle' : key first' ≤ key first := by
      rcases List.mem_cons.1 hmem with rfl | hmem
      · exact Nat.le_refl _
      · exact hfirst' first hmem
    have hle : key first ≤ key first' := by
      have hmem' : first' ∈ first :: rest := by
        have := hfilter (key first')
        rw [List.filter_cons_of_pos (l := rest') (by simp)] at this
        exact (List.mem_filter.1 (this ▸ List.mem_cons_self)).1
      rcases List.mem_cons.1 hmem' with rfl | hmem'
      · exact Nat.le_refl _
      · exact hfirst first' hmem'
    have hkey : key first = key first' := Nat.le_antisymm hle hle'
    have hheads := hfilter (key first)
    rw [List.filter_cons_of_pos (by simp), List.filter_cons_of_pos (by simp [hkey])] at hheads
    obtain ⟨rfl, -⟩ := List.cons.inj hheads
    refine congrArg (first :: ·) (ih hrest hrest' fun k => ?_)
    have h := hfilter k
    by_cases hk : key first = k
    · simpa [hk] using h
    · simpa [hk] using h

/-- Elements can be left out after sorting as well as before. -/
theorem filter (h : IsStableSort key list sorted) (p : α → Bool) :
    IsStableSort key (list.filter p) (sorted.filter p) := by
  refine ⟨h.ordered.filter p, fun k => ?_⟩
  rw [List.filter_comm, h.filter_eq k, List.filter_comm]

/-- An element more in a list is an element more in the sorted list, and nothing else changes. -/
theorem exists_insert {element : α} (h : IsStableSort key (before ++ element :: after) sorted) :
    ∃ front back, sorted = front ++ element :: back ∧
      IsStableSort key (before ++ after) (front ++ back) := by
  -- the element stands after those of its key that it comes after in the list
  have hkey := h.filter_eq (key element)
  rw [List.filter_append, List.filter_cons_of_pos (by simp), List.filter_eq_append_iff] at hkey
  obtain ⟨front, later, rfl, hfront, hlater⟩ := hkey
  obtain ⟨between, back, rfl, hbetween, -, hback⟩ := List.filter_eq_cons_iff.1 hlater
  refine ⟨front ++ between, back, by simp, ?_, fun k => ?_⟩
  · refine h.ordered.sublist ?_
    rw [List.append_assoc]
    exact ((List.sublist_cons_self element back).append_left between).append_left front
  · by_cases hk : key element = k
    · subst hk
      rw [List.filter_append, List.filter_append, hfront, List.filter_eq_nil_iff.2 hbetween,
        hback, List.append_nil, List.filter_append]
    · have hothers := h.filter_eq k
      simpa [hk] using hothers

end IsStableSort

end ElementLint
