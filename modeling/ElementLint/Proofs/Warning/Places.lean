import ElementLint.Warning.Basic

/-!
# Places of warnings

This module defines what it means that a range lies in a file of a given text
(`SourceRange.LiesIn`), that a replacement only puts something into the text
(`Replacement.InsertsInto`), and that a warning points at a place of the text and is fixed by
insertions alone (`Warning.LiesIn`). Ranges overlap regardless of their order, and every range
overlaps itself.
-/

namespace ElementLint

/-- A range of a file that fits the text of the file. -/
structure SourceRange.LiesIn (file contents : String) (range : SourceRange) : Prop where
  file_eq : range.file = file
  fits : range.offsets.fits contents.toList = true

/-- A replacement that takes nothing away from a file. -/
structure Replacement.InsertsInto (file contents : String) (replacement : Replacement) : Prop where
  range_liesIn : replacement.range.LiesIn file contents
  start_eq_stop : replacement.range.offsets.start = replacement.range.offsets.stop

theorem Replacement.InsertsInto.isEmpty {file contents : String} {replacement : Replacement}
    (h : replacement.InsertsInto file contents) : replacement.range.isEmpty = true :=
  decide_eq_true (Nat.le_of_eq h.start_eq_stop.symm)

/-- A warning about a place of a file whose fix takes nothing away from the file. -/
structure Warning.LiesIn (file contents : String) (warning : Warning) : Prop where
  range_liesIn : warning.range.LiesIn file contents
  fix_inserts : ∀ edit ∈ warning.fix, ∀ replacement ∈ edit, replacement.InsertsInto file contents

namespace SourceRange

/-- Every range overlaps itself. -/
@[simp]
theorem overlaps_self (range : SourceRange) : range.overlaps range = true := by
  rw [overlaps, if_neg (by simp)]
  cases hempty : range.isEmpty with
  | true => simp
  | false =>
    simp only [isEmpty, decide_eq_false_iff_not, Nat.not_le] at hempty
    simp [hempty]

theorem overlaps_comm (a b : SourceRange) : a.overlaps b = b.overlaps a := by
  unfold overlaps
  by_cases hfile : a.file = b.file
  · rw [if_neg (not_not_intro hfile), if_neg (not_not_intro hfile.symm), Bool.and_comm a.isEmpty,
      Bool.and_comm (decide (a.offsets.start < b.offsets.stop)), BEq.comm]
  · rw [if_pos hfile, if_pos (Ne.symm hfile)]

/-- Empty ranges overlap only at the same place of the same file. -/
theorem ne_of_overlaps_eq_false {a b : SourceRange} (h : a.overlaps b = false)
    (ha : a.isEmpty = true) (hb : b.isEmpty = true) (hfile : a.file = b.file) :
    a.offsets.start ≠ b.offsets.start := by
  rw [overlaps, if_neg (by simp [hfile]), ha, hb] at h
  simpa using h

/-- Empty ranges at different places do not overlap. -/
theorem overlaps_eq_false_of_ne {a b : SourceRange} (ha : a.isEmpty = true)
    (hb : b.isEmpty = true) (hne : a.offsets.start ≠ b.offsets.start) :
    a.overlaps b = false := by
  rw [overlaps, ha, hb]
  split
  · rfl
  · simpa using hne

end SourceRange

end ElementLint
