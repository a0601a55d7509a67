import ElementLint.Edits
import ElementLint.Proofs.Sorting
import ElementLint.Proofs.Warning.Places
import Mathlib.Data.List.Induction

/-!
# The acceptance of edits

The replacements of the accepted edits keep clear of each other (`EditSelection.apart_ofEdits`).
An edit that has been accepted or refused once adds nothing when it comes up again
(`EditSelection.settles_foldl_add`), so edits that come from a list of files with repetitions have
the same replacements as those of the files without repetitions
(`EditSelection.replacements_flatMap_eraseDups`).
-/

namespace ElementLint.EditSelection

variable {others more : List Replacement} {edit : Edit} {edits : List Edit}
  {selection selection' : EditSelection}

/-- Replacements no two of which overlap. -/
def Apart (replacements : List Replacement) : Prop :=
  replacements.Pairwise (fun a b => a.range.overlaps b.range = false)

/-! ### One edit -/

/-- A compatible edit keeps clear of the others, and its replacements keep clear of each other. -/
theorem apart_append (hothers : Apart others) (h : isCompatible others edit = true) :
    Apart (others ++ edit) := by
  induction edit generalizing others with
  | nil => rwa [List.append_nil]
  | cons replacement rest ih =>
    simp only [isCompatible, Bool.and_eq_true, Bool.not_eq_true', List.any_eq_false,
      Bool.not_eq_true] at h
    obtain ⟨⟨hother, hrest⟩, hcompatible⟩ := h
    obtain ⟨hapart, hlater, hcross⟩ := List.pairwise_append.1 (ih hothers hcompatible)
    refine List.pairwise_append.2 ⟨hapart, List.pairwise_cons.2 ⟨fun later hmem => ?_, hlater⟩, ?_⟩
    · rw [SourceRange.overlaps_comm]
      exact hrest later hmem
    · intro other hmem later hlater
      rcases List.mem_cons.1 hlater with rfl | hlater
      · exact hother other hmem
      · exact hcross other hmem later hlater

/-- An edit that keeps clear of the others and of itself is compatible. -/
theorem isCompatible_of_apart (h : Apart (others ++ edit)) : isCompatible others edit = true := by
  induction edit with
  | nil => rfl
  | cons replacement rest ih =>
    obtain ⟨hothers, hedit, hcross⟩ := List.pairwise_append.1 h
    obtain ⟨hself, hrest⟩ := List.pairwise_cons.1 hedit
    have hfewer : Apart (others ++ rest) := List.pairwise_append.2
      ⟨hothers, hrest, fun a ha b hb => hcross a ha b (List.mem_cons_of_mem _ hb)⟩
    have hother : others.any (·.range.overlaps replacement.range) = false := by
      refine List.any_eq_false.2 fun other hmem => ?_
      simp [hcross other hmem replacement List.mem_cons_self]
    have hlater : rest.any (·.range.overlaps replacement.range) = false := by
      refine List.any_eq_false.2 fun later hmem => ?_
      rw [SourceRange.overlaps_comm]
      simp [hself later hmem]
    rw [isCompatible, hother, hlater, ih hfewer]
    rfl

/-- What is compatible with some replacements is compatible with fewer of them. -/
theorem isCompatible_of_append (h : isCompatible (others ++ more) edit = true) :
    isCompatible others edit = true := by
  induction edit with
  | nil => rfl
  | cons replacement rest ih =>
    simp only [isCompatible, List.any_append, Bool.not_or, Bool.and_eq_true] at h ⊢
    obtain ⟨⟨⟨hothers, -⟩, hrest⟩, hcompatible⟩ := h
    exact ⟨⟨hothers, hrest⟩, ih hcompatible⟩

/-- An edit that is not empty is incompatible with itself. -/
theorem isCompatible_append_self (hne : edit ≠ []) :
    isCompatible (others ++ edit) edit = false := by
  obtain ⟨replacement, rest, rfl⟩ := List.exists_cons_of_ne_nil hne
  have hself : (others ++ replacement :: rest).any (·.range.overlaps replacement.range) = true := by
    refine List.any_eq_true.2 ⟨replacement, by simp, ?_⟩
    exact SourceRange.overlaps_self _
  rw [isCompatible, hself]
  rfl

/-! ### Accepting and refusing -/

theorem replacements_add (selection : EditSelection) (edit : Edit) :
    (selection.add edit).replacements =
      if isCompatible selection.replacements edit then selection.replacements ++ edit
      else selection.replacements := by
  rw [add]
  split
  · rw [replacements, replacements, List.flatten_append]
    simp
  · rfl

theorem replacements_foldl_add_congr (h : selection.replacements = selection'.replacements)
    (edits : List Edit) :
    (edits.foldl add selection).replacements = (edits.foldl add selection').replacements := by
  induction edits generalizing selection selection' with
  | nil => exact h
  | cons edit edits ih =>
    refine ih ?_
    rw [replacements_add, replacements_add, h]

theorem apart_foldl_add (h : Apart selection.replacements) (edits : List Edit) :
    Apart (edits.foldl add selection).replacements := by
  induction edits generalizing selection with
  | nil => exact h
  | cons edit edits ih =>
    refine ih ?_
    rw [replacements_add]
    split
    · next hcompatible => exact apart_append h hcompatible
    · exact h

/-- No two replacements of the accepted edits overlap. -/
theorem apart_ofEdits (edits : List Edit) : Apart (ofEdits edits).replacements :=
  have hempty : Apart empty.replacements := List.Pairwise.nil
  apart_foldl_add hempty edits

theorem accepted_foldl_add (selection : EditSelection) (edits : List Edit) :
    ∃ more, (edits.foldl add selection).accepted = selection.accepted ++ more ∧
      more.Sublist edits := by
  induction edits generalizing selection with
  | nil => exact ⟨[], (List.append_nil _).symm, .slnil⟩
  | cons edit edits ih =>
    obtain ⟨more, hmore, hsublist⟩ := ih (selection.add edit)
    rw [List.foldl_cons, hmore, add]
    split
    · exact ⟨edit :: more, by simp, hsublist.cons_cons edit⟩
    · exact ⟨more, rfl, hsublist.cons edit⟩

/-- The accepted edits are among the given ones, in their order. -/
theorem accepted_sublist (edits : List Edit) : (ofEdits edits).accepted.Sublist edits := by
  obtain ⟨more, hmore, hsublist⟩ := accepted_foldl_add empty edits
  rw [ofEdits, hmore]
  exact hsublist

theorem foldl_add_of_apart (h : Apart (selection.replacements ++ edits.flatten)) :
    edits.foldl add selection = { selection with accepted := selection.accepted ++ edits } := by
  induction edits generalizing selection with
  | nil => simp
  | cons edit edits ih =>
    rw [List.flatten_cons, ← List.append_assoc] at h
    have hcompatible := isCompatible_of_apart (List.pairwise_append.1 h).1
    have hadd : selection.add edit =
        { selection with accepted := selection.accepted ++ [edit] } := by
      rw [add, if_pos hcompatible]
    have hreplacements : (selection.add edit).replacements = selection.replacements ++ edit := by
      rw [replacements_add, if_pos hcompatible]
    rw [List.foldl_cons, ih (by rwa [hreplacements]), hadd, List.append_assoc,
      List.singleton_append]

/-- Edits that keep clear of each other are all accepted. -/
theorem ofEdits_of_apart (h : Apart edits.flatten) : ofEdits edits = ⟨edits, []⟩ := by
  have hfrom : Apart (empty.replacements ++ edits.flatten) := h
  rw [ofEdits, foldl_add_of_apart hfrom]
  rfl

/-! ### Repetitions -/

/-- An edit that adds nothing to a selection. -/
def Settles (selection : EditSelection) (edit : Edit) : Prop :=
  edit = [] ∨ isCompatible selection.replacements edit = false

theorem Settles.replacements_add (h : selection.Settles edit) :
    (selection.add edit).replacements = selection.replacements := by
  rw [EditSelection.replacements_add]
  rcases h with rfl | h
  · -- an empty edit may be accepted, but it has no replacements
    split
    · exact List.append_nil _
    · rfl
  · rw [h, if_neg Bool.false_ne_true]

theorem Settles.add (h : selection.Settles edit) (other : Edit) :
    (selection.add other).Settles edit := by
  refine h.imp_right fun h => ?_
  rw [EditSelection.replacements_add]
  split
  · rw [← Bool.not_eq_true] at h ⊢
    exact fun hcompatible => h (isCompatible_of_append hcompatible)
  · exact h

theorem Settles.foldl_add (h : selection.Settles edit) (edits : List Edit) :
    (edits.foldl EditSelection.add selection).Settles edit := by
  induction edits generalizing selection with
  | nil => exact h
  | cons other edits ih => exact ih (h.add other)

/-- An edit that was accepted or refused adds nothing more. -/
theorem settles_add_self (selection : EditSelection) (edit : Edit) :
    (selection.add edit).Settles edit := by
  rw [Settles, replacements_add]
  by_cases hne : edit = []
  · exact .inl hne
  · right
    split
    · exact isCompatible_append_self hne
    · next h => simpa using h

theorem settles_foldl_add (selection : EditSelection) (h : edit ∈ edits) :
    (edits.foldl add selection).Settles edit := by
  induction edits generalizing selection with
  | nil => contradiction
  | cons first edits ih =>
    rcases List.mem_cons.1 h with rfl | hmem
    · exact (settles_add_self selection edit).foldl_add edits
    · exact ih _ hmem

/-- Edits that add nothing one by one add nothing together. -/
theorem replacements_foldl_add_of_settles (h : ∀ edit ∈ edits, selection.Settles edit) :
    (edits.foldl add selection).replacements = selection.replacements := by
  induction edits generalizing selection with
  | nil => rfl
  | cons edit edits ih =>
    have hlater : ∀ later ∈ edits, (selection.add edit).Settles later := fun later hmem =>
      (h later (List.mem_cons_of_mem _ hmem)).add edit
    rw [List.foldl_cons, ih hlater, (h edit List.mem_cons_self).replacements_add]

/-- Files that come up again add no replacements. -/
theorem replacements_flatMap_eraseDups (editsOf : String → List Edit) (urls : List String) :
    (ofEdits (urls.eraseDups.flatMap editsOf)).replacements =
      (ofEdits (urls.flatMap editsOf)).replacements := by
  induction urls using List.reverseRecOn with
  | nil => rfl
  | append_singleton urls url ih =>
    rw [List.eraseDups_append, List.flatMap_append, List.flatMap_append, ofEdits, ofEdits,
      List.foldl_append, List.foldl_append]
    by_cases hmem : url ∈ urls
    · -- the edits of the file were accepted or refused before
      have hsettles : ∀ edit ∈ [url].flatMap editsOf,
          ((urls.flatMap editsOf).foldl add empty).Settles edit := by
        intro edit hedit
        rw [List.flatMap_singleton] at hedit
        exact settles_foldl_add empty (List.mem_flatMap.2 ⟨url, hmem, hedit⟩)
      have hagain : [url].removeAll urls = [] := by simp [List.removeAll, hmem]
      rw [hagain, replacements_foldl_add_of_settles hsettles]
      exact ih
    · have hnew : [url].removeAll urls = [url] := by simp [List.removeAll, hmem]
      rw [hnew]
      exact replacements_foldl_add_congr ih ([url].flatMap editsOf)

/-! ### The order of the replacements of a file -/

private theorem le_start_trans (a b c : Replacement)
    (hab : decide (b.range.offsets.start ≤ a.range.offsets.start) = true)
    (hbc : decide (c.range.offsets.start ≤ b.range.offsets.start) = true) :
    decide (c.range.offsets.start ≤ a.range.offsets.start) = true := by
  simp only [decide_eq_true_eq] at hab hbc ⊢
  exact Nat.le_trans hbc hab

private theorem le_start_total (a b : Replacement) :
    (decide (b.range.offsets.start ≤ a.range.offsets.start) ||
      decide (a.range.offsets.start ≤ b.range.offsets.start)) = true := by
  simp only [Bool.or_eq_true, decide_eq_true_eq]
  exact Nat.le_total _ _

theorem replacementsOf_perm (selection : EditSelection) (file : String) :
    (selection.replacementsOf file).Perm
      (selection.replacements.filter (·.range.file == file)) :=
  List.mergeSort_perm _ _

/-- The starts of the replacements of a file do not grow. -/
theorem pairwise_start_replacementsOf (selection : EditSelection) (file : String) :
    (selection.replacementsOf file).Pairwise
      (fun a b => b.range.offsets.start ≤ a.range.offsets.start) := by
  refine (List.pairwise_mergeSort le_start_trans le_start_total _).imp ?_
  exact fun hle => of_decide_eq_true hle

/-- The replacements that start at one place are made in the order in which they were accepted. -/
theorem filter_replacementsOf (selection : EditSelection) (file : String) (place : Nat) :
    (selection.replacementsOf file).filter (·.range.offsets.start == place) =
      (selection.replacements.filter (·.range.file == file)).filter
        (·.range.offsets.start == place) := by
  refine filter_mergeSort_of_pairwise le_start_trans le_start_total ?_
  refine List.pairwise_of_forall_mem_list fun a ha b hb => decide_eq_true ?_
  have hastart : a.range.offsets.start = place := beq_iff_eq.1 (List.mem_filter.1 ha).2
  have hbstart : b.range.offsets.start = place := beq_iff_eq.1 (List.mem_filter.1 hb).2
  exact Nat.le_of_eq (hbstart.trans hastart.symm)

end ElementLint.EditSelection
