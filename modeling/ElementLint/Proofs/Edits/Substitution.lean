import ElementLint.Proofs.Edits.Selection
import ElementLint.Proofs.Error
import ElementLint.Proofs.Loader.FileTable
import ElementLint.Proofs.Text.Slice
import Mathlib.Data.List.Pairwise

/-!
# Edits as substitutions

The replacements of a file are made one after the other, in a text that changes under them. The
result is that of putting all texts into the original at once (`Text.substitute?`): what stands
before, between and behind the replaced ranges is kept, and the new texts stand in the places of the
ranges (`applyEditsIn_substitutes`).

This holds because a replacement that is made later lies in front of those made before, where the
text is still the original. The replacements are sorted by their starts alone, so at one place
their order is that of acceptance: an insertion in front of a range has to be accepted after the
replacement of the range.
-/

namespace ElementLint

open Text

namespace Text

/-- The text from `place` on with some replacements made at once. The replacements are given in the
order of their places. -/
def substitute? (text : List Char) (place : Nat) : List Replacement → Option (List Char)
  | [] => slice? text ⟨place, byteSize text⟩
  | replacement :: rest => do
    let kept ← slice? text ⟨place, replacement.range.offsets.start⟩
    let later ← substitute? text replacement.range.offsets.stop rest
    some (kept ++ replacement.text.toList ++ later)

/-- The characters of a text that lie in none of some ranges; the text starts at `offset`. -/
def outside (replacements : List Replacement) (offset : Nat) : List Char → List Char
  | [] => []
  | c :: rest =>
    if replacements.any fun replacement =>
        decide (replacement.range.offsets.start ≤ offset) &&
          decide (offset < replacement.range.offsets.stop)
    then outside replacements (offset + c.utf8Size) rest
    else c :: outside replacements (offset + c.utf8Size) rest

end Text

namespace Replacement

/-- A replacement whose range ends before another one starts. -/
def Precedes (a b : Replacement) : Prop :=
  a.range.offsets.stop ≤ b.range.offsets.start

/-- Whether a range starts before another one, or starts at the same place and does not end
later. -/
def isBefore (a b : Replacement) : Bool :=
  decide (a.range.offsets.start < b.range.offsets.start) ||
    a.range.offsets.start == b.range.offsets.start &&
      decide (a.range.offsets.stop ≤ b.range.offsets.stop)

/-- Replacements in the order of their places; an insertion stands before the replacement of a range
that starts at its place. -/
def inOrder (replacements : List Replacement) : List Replacement :=
  replacements.mergeSort isBefore

end Replacement

variable {text before after : List Char} {replacement : Replacement}
  {replacements : List Replacement}

/-! ### Replacements from the last place to the first -/

/-- A slice between two beginnings of a text. -/
theorem Text.slice?_append (before part after : List Char) :
    slice? (before ++ (part ++ after)) ⟨byteSize before, byteSize before + byteSize part⟩ =
      some part :=
  slice?_eq_some_iff.2 ⟨before, after, rfl, rfl, rfl⟩

theorem Text.splice?_append (before part after inserted : List Char) :
    splice? (before ++ (part ++ after)) ⟨byteSize before, byteSize before + byteSize part⟩
      inserted = some (before ++ (inserted ++ after)) := by
  have hstop := charIndex_byteSize (before ++ part) after
  rw [List.append_assoc, byteSize_append] at hstop
  have hsize : byteSize (before ++ (part ++ after)) =
      byteSize before + (byteSize part + byteSize after) := by simp
  rw [splice?]
  dsimp only
  rw [hstop, charIndex_byteSize, hsize, List.length_append, if_neg (by omega), List.take_left,
    ← List.length_append, ← List.append_assoc before part after, List.drop_left, List.append_assoc]

/-- Replacements that fit a text and stand in the order of their places, from a place on. -/
structure Replacement.Ascending (text : List Char) (place : Nat)
    (replacements : List Replacement) : Prop where
  fits : ∀ replacement ∈ replacements, replacement.range.offsets.fits text = true
  le_start : ∀ replacement ∈ replacements, place ≤ replacement.range.offsets.start
  pairwise : replacements.Pairwise Replacement.Precedes

/-- The first of some replacements behind the start of a text cuts the rest of the text in three. -/
theorem Replacement.Ascending.exists_parts
    (h : Replacement.Ascending (before ++ after) (byteSize before) (replacement :: replacements)) :
    ∃ kept part following, after = kept ++ (part ++ following) ∧
      replacement.range.offsets = ⟨byteSize (before ++ kept), byteSize (before ++ kept ++ part)⟩ ∧
      Replacement.Ascending (before ++ kept ++ part ++ following)
        (byteSize (before ++ kept ++ part)) replacements := by
  obtain ⟨hprecedes, hpairwise⟩ := List.pairwise_cons.1 h.pairwise
  have hle := h.le_start replacement List.mem_cons_self
  obtain ⟨upto, part, following, htext, hstart, hstop⟩ :=
    fits_iff.1 (h.fits replacement List.mem_cons_self)
  obtain ⟨kept, rfl⟩ := exists_append_of_byteSize_le htext (by omega)
  have hoffsets : replacement.range.offsets =
      ⟨byteSize (before ++ kept), byteSize (before ++ kept ++ part)⟩ := by
    rw [byteSize_append (before ++ kept), ← hstop, ← hstart]
  have hall : before ++ after = before ++ kept ++ part ++ following := by
    rw [htext, List.append_assoc _ part]
  rw [List.append_assoc, List.append_cancel_left_eq] at htext
  refine ⟨kept, part, following, htext, hoffsets, ?_, ?_, hpairwise⟩
  · rw [← hall]
    exact fun later hmem => h.fits later (List.mem_cons_of_mem _ hmem)
  · intro later hmem
    have hstop := hprecedes later hmem
    rwa [Replacement.Precedes, hoffsets] at hstop

/-- What a substitution makes of the text up to the end of the first range. -/
theorem Text.substitute?_cons {before kept part following : List Char}
    (hoffsets : replacement.range.offsets =
      ⟨byteSize (before ++ kept), byteSize (before ++ kept ++ part)⟩) :
    substitute? (before ++ (kept ++ (part ++ following))) (byteSize before)
        (replacement :: replacements) =
      (substitute? (before ++ kept ++ part ++ following) (byteSize (before ++ kept ++ part))
        replacements).map (kept ++ replacement.text.toList ++ ·) := by
  have hkept := slice?_append before kept (part ++ following)
  rw [← byteSize_append] at hkept
  have htext : before ++ (kept ++ (part ++ following)) =
      before ++ kept ++ part ++ following := by simp
  rw [substitute?, hoffsets, hkept, htext]
  cases substitute? (before ++ kept ++ part ++ following) (byteSize (before ++ kept ++ part))
    replacements <;> rfl

theorem Text.substitute?_nil (before after : List Char) :
    substitute? (before ++ after) (byteSize before) [] = some after := by
  have hall := slice?_append before after []
  rwa [List.append_nil, ← byteSize_append] at hall

theorem applyReplacements_append (text : List Char) (first second : List Replacement)
    (current : List Char) :
    applyReplacements text (first ++ second) current =
      (applyReplacements text first current).bind (applyReplacements text second) := by
  induction first generalizing current with
  | nil => rfl
  | cons replacement rest ih =>
    rw [List.cons_append, applyReplacements, applyReplacements]
    cases replacement.apply text current with
    | done changed => exact ih changed
    | failed error => rfl
    | aborted message => rfl

/-- Replacements that are made from the last place to the first give the text with all of them made
at once. -/
theorem applyReplacements_reverse
    (h : Replacement.Ascending (before ++ after) (byteSize before) replacements) :
    ∃ tail, substitute? (before ++ after) (byteSize before) replacements = some tail ∧
      applyReplacements (before ++ after) replacements.reverse (before ++ after) =
        .done (before ++ tail) := by
  induction replacements generalizing before after with
  | nil => exact ⟨after, substitute?_nil before after, rfl⟩
  | cons replacement rest ih =>
    have hfits := h.fits replacement List.mem_cons_self
    obtain ⟨kept, part, following, rfl, hoffsets, hlater⟩ := h.exists_parts
    obtain ⟨tail, hsubstitute, happly⟩ := ih hlater
    have htext : before ++ (kept ++ (part ++ following)) =
        before ++ kept ++ part ++ following := by simp
    refine ⟨kept ++ replacement.text.toList ++ tail, ?_, ?_⟩
    · rw [substitute?_cons hoffsets, hsubstitute, Option.map_some]
    · -- the later replacements have left everything up to the end of this range as it was
      have hsplice := splice?_append (before ++ kept) part tail replacement.text.toList
      rw [← byteSize_append, ← List.append_assoc _ part] at hsplice
      rw [htext] at hfits ⊢
      rw [List.reverse_cons, applyReplacements_append, happly, Outcome.bind, applyReplacements,
        Replacement.apply, if_pos hfits, hoffsets, hsplice]
      simp [Outcome.bind, applyReplacements]

/-! ### What is kept -/

theorem Text.outside_append (replacements : List Replacement) (offset : Nat)
    (first second : List Char) :
    outside replacements offset (first ++ second) =
      outside replacements offset first ++
        outside replacements (offset + byteSize first) second := by
  induction first generalizing offset with
  | nil => rfl
  | cons c rest ih =>
    rw [List.cons_append, outside, outside, ih, byteSize_cons, Nat.add_assoc]
    split <;> simp

/-- A text that ends before the first range is kept. -/
theorem Text.outside_eq_self {offset : Nat}
    (h : ∀ replacement ∈ replacements, offset + byteSize text ≤ replacement.range.offsets.start) :
    outside replacements offset text = text := by
  induction text generalizing offset with
  | nil => rfl
  | cons c rest ih =>
    have hpos := c.utf8Size_pos
    simp only [byteSize_cons] at h
    rw [outside, if_neg, ih fun replacement hmem => by have := h replacement hmem; omega]
    simp only [List.any_eq_true, Bool.and_eq_true, decide_eq_true_eq, not_exists, not_and]
    intro replacement hmem hle
    have := h replacement hmem
    omega

/-- A text inside a range is not kept. -/
theorem Text.outside_eq_nil {offset : Nat} (hmem : replacement ∈ replacements)
    (hle : replacement.range.offsets.start ≤ offset)
    (hstop : offset + byteSize text ≤ replacement.range.offsets.stop) :
    outside replacements offset text = [] := by
  induction text generalizing offset with
  | nil => rfl
  | cons c rest ih =>
    have hpos := c.utf8Size_pos
    rw [byteSize_cons] at hstop
    rw [outside, if_pos, ih (by omega) (by omega)]
    simp only [List.any_eq_true, Bool.and_eq_true, decide_eq_true_eq]
    exact ⟨replacement, hmem, hle, by omega⟩

/-- A range in front of a text does not matter for it. -/
theorem Text.outside_cons_of_stop_le {offset : Nat}
    (h : replacement.range.offsets.stop ≤ offset) :
    outside (replacement :: replacements) offset text = outside replacements offset text := by
  induction text generalizing offset with
  | nil => rfl
  | cons c rest ih =>
    have hnot : decide (offset < replacement.range.offsets.stop) = false :=
      decide_eq_false (by omega)
    rw [outside, outside, ih (by omega), List.any_cons, hnot, Bool.and_false, Bool.false_or]

/-- The order of the ranges does not matter for what lies outside them. -/
theorem Text.outside_perm {first second : List Replacement} (h : first.Perm second) (offset : Nat)
    (text : List Char) : outside first offset text = outside second offset text := by
  induction text generalizing offset with
  | nil => rfl
  | cons c rest ih => rw [outside, outside, h.any_eq, ih]

/-- Between the new texts a substitution has the characters outside the ranges, in their order and
each once. -/
theorem substitute?_eq_outside {tail : List Char}
    (h : Replacement.Ascending (before ++ after) (byteSize before) replacements)
    (hsubstitute : substitute? (before ++ after) (byteSize before) replacements = some tail) :
    ∃ first later, later.length = replacements.length ∧
      outside replacements (byteSize before) after = first ++ later.flatten ∧
      tail = first ++ (List.zipWith (fun replacement kept => replacement.text.toList ++ kept)
        replacements later).flatten := by
  induction replacements generalizing before after tail with
  | nil =>
    obtain rfl := Option.some.inj ((substitute?_nil before after).symm.trans hsubstitute)
    exact ⟨after, [], rfl, by simp [outside_eq_self], by simp⟩
  | cons replacement rest ih =>
    obtain ⟨kept, part, following, rfl, hoffsets, hlater⟩ := h.exists_parts
    rw [substitute?_cons hoffsets, Option.map_eq_some_iff] at hsubstitute
    obtain ⟨tail, hsubstitute, rfl⟩ := hsubstitute
    obtain ⟨first, later, hlength, houtside, rfl⟩ := ih hlater hsubstitute
    have hstart : replacement.range.offsets.start = byteSize before + byteSize kept := by
      rw [hoffsets, byteSize_append]
    have hstop : replacement.range.offsets.stop =
        byteSize before + byteSize kept + byteSize part := by
      simp only [hoffsets, byteSize_append]
    -- no range reaches into what stands before the first one
    have hkept : outside (replacement :: rest) (byteSize before) kept = kept := by
      refine outside_eq_self fun other hmem => ?_
      rcases List.mem_cons.1 hmem with rfl | hmem
      · exact hstart.ge
      · have hle := hlater.le_start other hmem
        simp only [byteSize_append] at hle
        omega
    -- and all of the first range is taken away
    have hpart : outside (replacement :: rest) (byteSize before + byteSize kept) part = [] :=
      outside_eq_nil List.mem_cons_self hstart.le hstop.ge
    rw [byteSize_append, byteSize_append] at houtside
    refine ⟨kept, first :: later, by rw [List.length_cons, hlength, List.length_cons], ?_, ?_⟩
    · rw [outside_append, outside_append, hkept, hpart, outside_cons_of_stop_le hstop.le, houtside]
      simp
    · simp

/-! ### The order of the replacements -/

namespace Replacement

/-- An insertion right before a range that is replaced. -/
def InsertsBefore (a b : Replacement) : Prop :=
  a.range.offsets.start = a.range.offsets.stop ∧
    a.range.offsets.start = b.range.offsets.start ∧ b.range.offsets.start ≠ b.range.offsets.stop

variable {a b : Replacement}

theorem isBefore_iff :
    a.isBefore b = true ↔ a.range.offsets.start < b.range.offsets.start ∨
      a.range.offsets.start = b.range.offsets.start ∧
        a.range.offsets.stop ≤ b.range.offsets.stop := by
  simp [isBefore]

theorem inOrder_perm (replacements : List Replacement) :
    (inOrder replacements).Perm replacements :=
  List.mergeSort_perm _ _

theorem pairwise_isBefore_inOrder (replacements : List Replacement) :
    (inOrder replacements).Pairwise (fun a b => a.isBefore b = true) := by
  refine List.pairwise_mergeSort (fun a b c hab hbc => ?_) (fun a b => ?_) _
  · rw [isBefore_iff] at hab hbc ⊢
    omega
  · rw [Bool.or_eq_true, isBefore_iff, isBefore_iff]
    omega

/-- Ranges of one file from the same place to the same place overlap. -/
theorem overlaps_of_isBefore (hfile : a.range.file = b.range.file) (hab : a.isBefore b = true)
    (hba : b.isBefore a = true) : a.range.overlaps b.range = true := by
  rw [isBefore_iff] at hab hba
  have hstart : a.range.offsets.start = b.range.offsets.start := by omega
  have hstop : a.range.offsets.stop = b.range.offsets.stop := by omega
  have hself := SourceRange.overlaps_self b.range
  rw [SourceRange.overlaps, if_neg (by simp)] at hself
  rwa [SourceRange.overlaps, if_neg (by simp [hfile]), SourceRange.isEmpty, hstart, hstop]

/-- Of two ranges of one file that do not overlap the one that does not start later comes first,
unless the other one is an insertion before it. -/
theorem precedes_of_start_le (hfile : a.range.file = b.range.file)
    (hoverlaps : a.range.overlaps b.range = false)
    (ha : a.range.offsets.start ≤ a.range.offsets.stop)
    (hb : b.range.offsets.start ≤ b.range.offsets.stop)
    (hle : b.range.offsets.start ≤ a.range.offsets.start) (hnot : ¬a.InsertsBefore b) :
    b.Precedes a := by
  rw [SourceRange.overlaps, if_neg (by simp [hfile])] at hoverlaps
  simp only [InsertsBefore, not_and, not_not] at hnot
  rw [Precedes]
  split at hoverlaps
  · next hempty =>
    simp only [SourceRange.isEmpty, Bool.and_eq_true, decide_eq_true_eq] at hempty
    have hne := beq_eq_false_iff_ne.1 hoverlaps
    omega
  · next hempty =>
    simp only [SourceRange.isEmpty, Bool.and_eq_true, decide_eq_true_eq, not_and] at hempty
    simp only [Bool.and_eq_false_iff, decide_eq_false_iff_not, Nat.not_lt] at hoverlaps
    omega

/-- `b` can be made after `a`: it does not start later, and unless `a` is an insertion right before
the range of `b`, this range ends before `a` starts. -/
structure LeavesRoom (a b : Replacement) : Prop where
  start_le : b.range.offsets.start ≤ a.range.offsets.start
  precedes : a.range.offsets.start ≤ a.range.offsets.stop →
    b.range.offsets.start ≤ b.range.offsets.stop → b.Precedes a ∨ a.InsertsBefore b

end Replacement

namespace EditSelection

variable {selection : EditSelection} {file : String}

theorem file_eq_of_mem_replacementsOf (hmem : replacement ∈ selection.replacementsOf file) :
    replacement.range.file = file :=
  beq_iff_eq.1 (List.mem_filter.1 ((selection.replacementsOf_perm file).subset hmem)).2

/-- Replacements that start at one place are made as they were accepted. -/
theorem pairwise_same_start {r : Replacement → Replacement → Prop}
    (h : (selection.replacements.filter (·.range.file == file)).Pairwise r) :
    (selection.replacementsOf file).Pairwise
      (fun a b => a.range.offsets.start = b.range.offsets.start → r a b) := by
  rw [List.pairwise_iff_forall_sublist] at h ⊢
  intro a b hsublist hstart
  have hplace := hsublist.filter (·.range.offsets.start == a.range.offsets.start)
  rw [filter_replacementsOf, List.filter_eq_self.2 (by simp [hstart])] at hplace
  exact h (hplace.trans List.filter_sublist)

/-- Accepted replacements are made in an order in which each leaves room for those after it. -/
theorem pairwise_leavesRoom_replacementsOf (hapart : Apart selection.replacements)
    (file : String) : (selection.replacementsOf file).Pairwise Replacement.LeavesRoom := by
  have hoverlaps : (selection.replacementsOf file).Pairwise
      (fun a b => a.range.overlaps b.range = false) := by
    refine ((selection.replacementsOf_perm file).pairwise_iff fun h => ?_).2 (hapart.filter _)
    rwa [SourceRange.overlaps_comm]
  have hsorted := selection.pairwise_start_replacementsOf file
  refine List.Pairwise.imp_of_mem ?_ (hsorted.and hoverlaps)
  rintro a b ha hb ⟨hle, hoverlaps⟩
  have hfile : a.range.file = b.range.file :=
    (file_eq_of_mem_replacementsOf ha).trans (file_eq_of_mem_replacementsOf hb).symm
  refine ⟨hle, fun hforward hforward' => or_iff_not_imp_right.2 fun hnot => ?_⟩
  exact Replacement.precedes_of_start_le hfile hoverlaps hforward hforward' hle hnot

/-- The replacements of a file are made from the last place to the first. -/
theorem pairwise_precedes_replacementsOf (hapart : Apart selection.replacements)
    (hforward : ∀ replacement ∈ selection.replacementsOf file,
      replacement.range.offsets.start ≤ replacement.range.offsets.stop)
    (hbefore : (selection.replacements.filter (·.range.file == file)).Pairwise
      fun a b => ¬a.InsertsBefore b) :
    (selection.replacementsOf file).Pairwise fun a b => b.Precedes a := by
  have hroom := pairwise_leavesRoom_replacementsOf hapart file
  refine List.Pairwise.imp_of_mem ?_ (hroom.and (pairwise_same_start hbefore))
  rintro a b ha hb ⟨hroom, hsame⟩
  refine (hroom.precedes (hforward a ha) (hforward b hb)).resolve_right fun hinserts => ?_
  exact hsame hinserts.2.1 hinserts

/-- The replacements of a file are made in the reverse of the order of their places. -/
theorem inOrder_eq_reverse (hapart : Apart selection.replacements)
    (hforward : ∀ replacement ∈ selection.replacementsOf file,
      replacement.range.offsets.start ≤ replacement.range.offsets.stop)
    (hprecedes : (selection.replacementsOf file).Pairwise fun a b => b.Precedes a) :
    Replacement.inOrder (selection.replacements.filter (·.range.file == file)) =
      (selection.replacementsOf file).reverse := by
  have hperm := (List.reverse_perm _).trans (selection.replacementsOf_perm file)
  have hreverse : (selection.replacementsOf file).reverse.Pairwise
      (fun a b => a.isBefore b = true) := by
    refine List.Pairwise.imp_of_mem (fun {a b} ha hb hab => ?_) (List.pairwise_reverse.2 hprecedes)
    have hale := hforward a (List.mem_reverse.1 ha)
    have hble := hforward b (List.mem_reverse.1 hb)
    rw [Replacement.Precedes] at hab
    rw [Replacement.isBefore_iff]
    omega
  refine List.Perm.eq_of_pairwise (fun a b ha hb hab hba => ?_)
    (Replacement.pairwise_isBefore_inOrder _) hreverse
    ((Replacement.inOrder_perm _).trans hperm.symm)
  -- replacements of one file at one place would overlap
  by_contra hne
  have hamem := (Replacement.inOrder_perm _).subset ha
  have hbmem := hperm.subset hb
  have hfile : a.range.file = b.range.file :=
    (beq_iff_eq.1 (List.mem_filter.1 hamem).2).trans (beq_iff_eq.1 (List.mem_filter.1 hbmem).2).symm
  have hoverlaps := Replacement.overlaps_of_isBefore hfile hab hba
  have hsymm : Std.Symm fun a b : Replacement => a.range.overlaps b.range = false :=
    ⟨fun a b h => by rwa [SourceRange.overlaps_comm]⟩
  rw [hapart.forall (List.mem_filter.1 hamem).1 (List.mem_filter.1 hbmem).1 hne] at hoverlaps
  contradiction

/-! ### Whole files -/

/-- The table of new texts has the new text of every file that was visited. -/
theorem get?_of_editFiles_eq_done {loader : Loader} {files : List String}
    {table result : FileTable} (h : selection.editFiles loader files table = .done result)
    (file : String) :
    (file ∈ files → ∃ changed, selection.editFile loader file = .done changed ∧
      result.get? file = some changed) ∧
    (file ∉ files → result.get? file = table.get? file) := by
  induction files generalizing table with
  | nil =>
    obtain rfl := Outcome.done.inj h
    simp
  | cons first rest ih =>
    obtain ⟨text, hfirst, h⟩ := Outcome.bind_eq_done h
    obtain ⟨hvisited, hother⟩ := ih h
    have hinsert := FileTable.get?_insert table first text file
    refine ⟨fun hmem => ?_, fun hmem => ?_⟩
    · by_cases hrest : file ∈ rest
      · exact hvisited hrest
      · obtain rfl := (List.mem_cons.1 hmem).resolve_right hrest
        rw [if_pos rfl] at hinsert
        exact ⟨text, hfirst, (hother hrest).trans hinsert⟩
    · rw [List.mem_cons, not_or] at hmem
      rw [if_neg hmem.1] at hinsert
      exact (hother hmem.2).trans hinsert

end EditSelection

/-- Replacements that could be made fit the text that was loaded. -/
theorem fits_of_applyReplacements_eq_done {current changed : List Char}
    (h : applyReplacements text replacements current = .done changed) :
    ∀ replacement ∈ replacements, replacement.range.offsets.fits text = true := by
  induction replacements generalizing current with
  | nil => simp
  | cons first rest ih =>
    obtain ⟨next, hfirst, h⟩ := Outcome.bind_eq_done h
    intro replacement hmem
    rcases List.mem_cons.1 hmem with rfl | hmem
    · by_contra hmisfit
      rw [Replacement.apply, if_neg hmisfit] at hfirst
      contradiction
    · exact ih h replacement hmem

/-- A text with some replacements made at once. -/
structure Text.Substitutes (text changed : List Char) (replacements : List Replacement) : Prop where
  /-- No range ends behind the start of a later one. -/
  precedes : (Replacement.inOrder replacements).Pairwise Replacement.Precedes
  /-- The new texts stand between what the original has between the ranges. -/
  substitute?_eq : substitute? text 0 (Replacement.inOrder replacements) = some changed
  /-- Around the new texts stand the characters outside all ranges, in their order. -/
  keeps : ∃ first later, later.length = replacements.length ∧
    outside replacements 0 text = first ++ later.flatten ∧
    changed = first ++ (List.zipWith (fun replacement kept => replacement.text.toList ++ kept)
      (Replacement.inOrder replacements) later).flatten

/-- The new text of a file is the original with the accepted replacements made at once, if no
insertion was accepted before the replacement of a range at its place. -/
theorem EditSelection.substitutes_of_editFile_eq_done {selection : EditSelection}
    (hapart : Apart selection.replacements) {loader : Loader} {file changed : String}
    (h : selection.editFile loader file = .done changed)
    (hbefore : (selection.replacements.filter (·.range.file == file)).Pairwise
      fun a b => ¬a.InsertsBefore b) :
    ∃ contents, loader.load file = .done contents ∧
      Substitutes contents.toList changed.toList
        (selection.replacements.filter (·.range.file == file)) := by
  obtain ⟨contents, hload, h⟩ := Outcome.bind_eq_done h
  obtain ⟨edited, happlied, h⟩ := Outcome.bind_eq_done h
  obtain rfl := Outcome.done.inj h
  have hfits := fits_of_applyReplacements_eq_done happlied
  have hforward : ∀ replacement ∈ selection.replacementsOf file,
      replacement.range.offsets.start ≤ replacement.range.offsets.stop :=
    fun replacement hmem => (fits_iff_isBoundary.1 (hfits replacement hmem)).1
  -- the order in which the replacements are made is the order of the places backwards
  have hprecedes := pairwise_precedes_replacementsOf hapart hforward hbefore
  have horder := inOrder_eq_reverse hapart hforward hprecedes
  have hascending : Replacement.Ascending ([] ++ contents.toList) (byteSize [])
      (Replacement.inOrder (selection.replacements.filter (·.range.file == file))) := by
    rw [horder]
    refine ⟨fun replacement hmem => hfits replacement (List.mem_reverse.1 hmem),
      fun _ _ => Nat.zero_le _, List.pairwise_reverse.2 hprecedes⟩
  obtain ⟨tail, hsubstitute, happly⟩ := applyReplacements_reverse hascending
  rw [horder, List.reverse_reverse, List.nil_append, happlied] at happly
  obtain rfl := Outcome.done.inj happly
  obtain ⟨first, later, hlength, houtside, htail⟩ := substitute?_eq_outside hascending hsubstitute
  have hperm := Replacement.inOrder_perm (selection.replacements.filter (·.range.file == file))
  rw [List.nil_append] at hsubstitute
  rw [outside_perm hperm] at houtside
  exact ⟨contents, hload, hascending.pairwise, by rwa [String.toList_ofList], first, later,
    hlength.trans hperm.length_eq, houtside, by rwa [String.toList_ofList]⟩

/-- Where edits can be applied the files with accepted replacements get new texts. Such a text is
the original with all accepted replacements of the file made at once, if no insertion was accepted
before the replacement of a range that starts at its place. -/
theorem applyEditsIn_substitutes {order : EditSelection → List String}
    (horder : ∀ selection, (order selection).Perm selection.files) {edits : List Edit}
    {loader : Loader} {result : EditResult}
    (h : applyEditsIn order edits loader = .done result) (file : String) :
    ((result.files.get? file).isSome ↔ file ∈ result.applied.flatten.map (·.range.file)) ∧
      ∀ changed, result.files.get? file = some changed →
        (result.applied.flatten.filter (·.range.file == file)).Pairwise
          (fun a b => ¬a.InsertsBefore b) →
        ∃ contents, loader.load file = .done contents ∧
          Substitutes contents.toList changed.toList
            (result.applied.flatten.filter (·.range.file == file)) := by
  obtain ⟨files, hfiles, h⟩ := Outcome.bind_eq_done h
  obtain rfl := Outcome.done.inj h
  set selection := EditSelection.ofEdits edits
  have hmem : file ∈ order selection ↔ file ∈ selection.replacements.map (·.range.file) :=
    (horder selection).mem_iff.trans List.mem_eraseDups
  obtain ⟨hvisited, hother⟩ := EditSelection.get?_of_editFiles_eq_done hfiles file
  dsimp only
  by_cases hfile : file ∈ order selection
  · obtain ⟨changed, hchanged, hget⟩ := hvisited hfile
    rw [hget]
    refine ⟨iff_of_true rfl (hmem.1 hfile), fun changed' hsame hbefore => ?_⟩
    obtain rfl := Option.some.inj hsame
    exact EditSelection.substitutes_of_editFile_eq_done (EditSelection.apart_ofEdits edits)
      hchanged hbefore
  · rw [hother hfile]
    refine ⟨iff_of_false Bool.false_ne_true (mt hmem.2 hfile), fun _ hsome => ?_⟩
    contradiction

/-- Ranges and insertions that touch each other behind a character of two bytes; an edit that
overlaps an accepted one is refused. -/
theorem applyEditsIn_substitutes_touching :
    let replacement (start stop : Nat) (text : String) : Replacement :=
      ⟨⟨"a", ⟨0, 0⟩, ⟨0, 0⟩, ⟨start, stop⟩⟩, text⟩
    let edits := [[replacement 1 3 "ü"], [replacement 1 1 "[", replacement 3 4 ""],
      [replacement 0 2 "x"], [replacement 3 3 "]"]]
    let loader : Loader := .ofTable (.ofList [("a", "aé<b>")])
    ∃ result, applyEdits edits loader = .done result ∧ result.applied.length = 3 ∧
      result.files.get? "a" = some "a[ü]b>" ∧
      Substitutes "aé<b>".toList "a[ü]b>".toList
        (result.applied.flatten.filter (·.range.file == "a")) := by
  intro replacement edits loader
  have hselection : EditSelection.ofEdits edits =
      ⟨[[replacement 1 3 "ü"], [replacement 1 1 "[", replacement 3 4 ""], [replacement 3 3 "]"]],
        [[replacement 0 2 "x"]]⟩ := by
    decide +kernel
  -- `List.mergeSort` does not reduce, so sorting is evaluated by rewriting
  have hsorted : (EditSelection.ofEdits edits).replacementsOf "a" =
      [replacement 3 4 "", replacement 3 3 "]", replacement 1 3 "ü", replacement 1 1 "["] := by
    rw [hselection]
    simp [EditSelection.replacementsOf, EditSelection.replacements, replacement, List.mergeSort]
  have happly : applyEdits edits loader = .done
      ⟨[[replacement 1 3 "ü"], [replacement 1 1 "[", replacement 3 4 ""], [replacement 3 3 "]"]],
        [[replacement 0 2 "x"]], .ofList [("a", "a[ü]b>")]⟩ := by
    have hfiles : (EditSelection.ofEdits edits).files = ["a"] := by
      rw [hselection]
      decide +kernel
    have hedit : (EditSelection.ofEdits edits).editFile loader "a" = .done "a[ü]b>" := by
      rw [EditSelection.editFile, hsorted]
      decide +kernel
    rw [applyEdits, applyEditsIn, hfiles, EditSelection.editFiles, hedit, hselection]
    rfl
  refine ⟨_, happly, rfl, by decide +kernel, ?_⟩
  obtain ⟨-, hsubstitutes⟩ := applyEditsIn_substitutes (fun _ => .refl _) happly "a"
  have hload : loader.load "a" = .done "aé<b>" := by decide +kernel
  obtain ⟨contents, hcontents, hsubstitutes⟩ := hsubstitutes "a[ü]b>" (by decide +kernel)
    (by simp [Replacement.InsertsBefore, replacement])
  obtain rfl := Outcome.done.inj (hload.symm.trans hcontents)
  exact hsubstitutes

end ElementLint
