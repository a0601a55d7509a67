import ElementLint.Edits
import ElementLint.Proofs.Text.Slice
import ElementLint.Proofs.Warning.Places
import Mathlib.Order.Nat

/-!
# Insertions into a text

`Text.weave` puts texts at the places of a text, all of them at once. Insertions at different places
that are made one after the other, the last place first, give the same text
(`applyReplacements_weave`): what is made already stands behind the place of the next one and does
not move it.
-/

namespace ElementLint

open Text

namespace Text

/-- A text with other texts put at its places. `inserted` tells what goes to a byte offset; the text
starts at `offset`. -/
def weave (inserted : Nat → List Char) (offset : Nat) : List Char → List Char
  | [] => inserted offset
  | c :: rest => inserted offset ++ c :: weave inserted (offset + c.utf8Size) rest

variable {inserted other : Nat → List Char} {offset : Nat} {text before after : List Char}

/-- Nothing of the text is taken away or moved past anything else. -/
theorem sublist_weave (inserted : Nat → List Char) (offset : Nat) (text : List Char) :
    text.Sublist (weave inserted offset text) := by
  induction text generalizing offset with
  | nil => exact List.nil_sublist _
  | cons c rest ih =>
    rw [weave]
    exact ((ih _).cons_cons c).trans (List.sublist_append_right _ _)

theorem weave_eq_self (offset : Nat) (text : List Char) :
    weave (fun _ => []) offset text = text := by
  induction text generalizing offset with
  | nil => rfl
  | cons c rest ih => rw [weave, ih, List.nil_append]

/-- Only what goes to places from the start of the text on matters. -/
theorem weave_congr (h : ∀ place, offset ≤ place → inserted place = other place) :
    weave inserted offset text = weave other offset text := by
  induction text generalizing offset with
  | nil => exact h offset le_rfl
  | cons c rest ih =>
    rw [weave, weave, h offset le_rfl, ih fun place hle => h place (by omega)]

/-- The start of a text stays as it is if nothing goes there. -/
theorem weave_append (h : ∀ place < offset + byteSize before, inserted place = []) :
    weave inserted offset (before ++ after) =
      before ++ weave inserted (offset + byteSize before) after := by
  induction before generalizing offset with
  | nil => rfl
  | cons c rest ih =>
    have hpos := c.utf8Size_pos
    rw [byteSize_cons] at h
    rw [List.cons_append, weave, h offset (by omega), List.nil_append, byteSize_cons,
      ih fun place hlt => h place (by omega), Nat.add_assoc, List.cons_append]

/-- What goes to the start of a text stands before it. -/
theorem weave_start (part : List Char) (h : inserted offset = []) :
    weave (fun place => if place = offset then part else inserted place) offset text =
      part ++ weave inserted offset text := by
  cases text with
  | nil => simp [weave, h]
  | cons c rest =>
    have hpos := c.utf8Size_pos
    rw [weave, weave, if_pos rfl, h, List.nil_append]
    congr 2
    exact weave_congr fun place hle => if_neg (by omega)

/-- A further text is put at a place before which nothing is put yet, by looking the place up in the
text as it is. -/
theorem splice?_weave (part : List Char)
    (h : ∀ place ≤ byteSize before, inserted place = []) :
    splice? (weave inserted 0 (before ++ after)) ⟨byteSize before, byteSize before⟩ part =
      some (weave (fun place => if place = byteSize before then part else inserted place) 0
        (before ++ after)) := by
  have hbefore : ∀ place < 0 + byteSize before, inserted place = [] :=
    fun place hlt => h place (by omega)
  -- up to the place the text is as it was, so the place is found where it is in the text itself
  have hold : weave inserted 0 (before ++ after) =
      before ++ weave inserted (byteSize before) after := by
    rw [weave_append hbefore, Nat.zero_add]
  have hnew : weave (fun place => if place = byteSize before then part else inserted place) 0
      (before ++ after) = before ++ (part ++ weave inserted (byteSize before) after) := by
    rw [weave_append, Nat.zero_add, weave_start part (h _ le_rfl)]
    intro place hlt
    rw [if_neg (by omega), hbefore place hlt]
  rw [hold, hnew, splice?]
  dsimp only
  rw [charIndex_byteSize, if_neg, List.take_left, List.drop_left, List.append_assoc]
  rw [byteSize_append]
  omega

end Text

/-! ### Insertions one after the other -/

variable {file contents : String} {replacement : Replacement} {inserted : Nat → List Char}

/-- Makes an insertion in a text into which others were put behind its place. -/
theorem Replacement.apply_weave (h : replacement.InsertsInto file contents)
    (hfree : ∀ place ≤ replacement.range.offsets.start, inserted place = []) :
    replacement.apply contents.toList (weave inserted 0 contents.toList) =
      .done (weave (fun place => if place = replacement.range.offsets.start
        then replacement.text.toList else inserted place) 0 contents.toList) := by
  have hfits := h.range_liesIn.fits
  obtain ⟨before, part, after, htext, hstart, -⟩ := fits_iff.1 hfits
  have hextent : replacement.range.offsets = ⟨byteSize before, byteSize before⟩ :=
    calc replacement.range.offsets
      _ = ⟨replacement.range.offsets.start, replacement.range.offsets.stop⟩ := rfl
      _ = ⟨byteSize before, byteSize before⟩ := by rw [← h.start_eq_stop, hstart]
  rw [hstart] at hfree
  rw [Replacement.apply, if_pos hfits, hextent, htext, splice?_weave _ hfree]

/-- What some replacements put to a place. -/
def insertedAt (replacements : List Replacement) (place : Nat) : List Char :=
  (replacements.filter (·.range.offsets.start == place)).flatMap (·.text.toList)

/-- Insertions that are made one after the other, the last place first, put their texts to their
places. -/
theorem applyReplacements_weave (replacements : List Replacement)
    (hinserts : ∀ replacement ∈ replacements, replacement.InsertsInto file contents)
    (hordered : replacements.Pairwise
      (fun a b => b.range.offsets.start < a.range.offsets.start))
    (hfree : ∀ replacement ∈ replacements, ∀ place ≤ replacement.range.offsets.start,
      inserted place = []) :
    applyReplacements contents.toList replacements (weave inserted 0 contents.toList) =
      .done (weave (fun place => insertedAt replacements place ++ inserted place) 0
        contents.toList) := by
  induction replacements generalizing inserted with
  | nil => simp [applyReplacements, insertedAt]
  | cons replacement rest ih =>
    obtain ⟨hbefore, hordered⟩ := List.pairwise_cons.1 hordered
    have hinserts' : ∀ later ∈ rest, later.InsertsInto file contents := fun later hmem =>
      hinserts later (List.mem_cons_of_mem _ hmem)
    have hfirst := Replacement.apply_weave (hinserts replacement List.mem_cons_self)
      (hfree replacement List.mem_cons_self)
    -- up to the place of a later insertion nothing is put by this one either
    have hfree' : ∀ later ∈ rest, ∀ place ≤ later.range.offsets.start,
        (if place = replacement.range.offsets.start then replacement.text.toList
          else inserted place) = [] := by
      intro later hmem place hle
      have hlt := hbefore later hmem
      rw [if_neg (by omega)]
      exact hfree later (List.mem_cons_of_mem _ hmem) place hle
    rw [applyReplacements, hfirst, Outcome.bind, ih hinserts' hordered hfree']
    congr 2
    funext place
    by_cases hplace : place = replacement.range.offsets.start
    · -- only this insertion goes to its place
      have hrest : rest.filter (·.range.offsets.start == place) = [] := by
        refine List.filter_eq_nil_iff.2 fun later hmem => ?_
        have hlt := hbefore later hmem
        simp only [beq_iff_eq]
        omega
      have hold := hfree replacement List.mem_cons_self place hplace.le
      rw [if_pos hplace, insertedAt, insertedAt, hrest, List.filter_cons_of_pos (by simp [hplace]),
        hrest, hold]
      simp
    · rw [if_neg hplace, insertedAt, insertedAt, List.filter_cons_of_neg]
      simpa using Ne.symm hplace

end ElementLint
