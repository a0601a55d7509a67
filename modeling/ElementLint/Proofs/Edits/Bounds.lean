import ElementLint.Proofs.Edits.Substitution

/-!
# Places in a text that changes

The replacements of a file are checked against its text as it was loaded, but made in the text as it
is then. `Text.Admits` says that both places of a replacement can be looked up in a text, one not
before the other. This holds whenever a replacement that fits the loaded text is made
(`applyEditsIn_admits`), so applying edits never aborts on its own.

What carries the argument is `Leaves`, which says what the replacements made so far have left of the
loaded text: everything in front of them, and from the first replaced range on at least as many
bytes as there were before. A later replacement lies in front of them all, or replaces a range
before which one of them has inserted something (`Replacement.LeavesRoom`).
-/

namespace ElementLint

open Text

variable {loaded text before after : List Char} {next replacement : Replacement}
  {made pending : List Replacement}

namespace Text

theorem charIndex_le_charIndex (text : List Char) {first second : Nat} (h : first ≤ second) :
    charIndex text first ≤ charIndex text second := by
  fun_induction charIndex text first generalizing second with
  | case1 => exact Nat.zero_le _
  | case2 => exact Nat.zero_le _
  | case3 c rest first hfirst ih =>
    have hlater : charIndex rest (first - c.utf8Size) ≤ charIndex rest (second - c.utf8Size) :=
      ih (by omega)
    rw [charIndex, if_neg (by omega)]
    omega

theorem charIndex_le_length (text : List Char) (offset : Nat) :
    charIndex text offset ≤ text.length := by
  fun_induction charIndex text offset with
  | case1 => exact Nat.zero_le _
  | case2 => exact Nat.zero_le _
  | case3 c rest offset _ ih =>
    rw [List.length_cons]
    omega

/-- A text from which what lies between two places can be taken: both offsets are in it, and the
characters in which they fall are in it and in order. -/
structure Admits (text : List Char) (offsets : Extent) : Prop where
  start_le : offsets.start ≤ byteSize text
  stop_le : offsets.stop ≤ byteSize text
  charIndex_le : charIndex text offsets.start ≤ charIndex text offsets.stop
  charIndex_le_length : charIndex text offsets.stop ≤ text.length

theorem admits_of_stop_le {offsets : Extent} (hle : offsets.start ≤ offsets.stop)
    (hstop : offsets.stop ≤ byteSize text) : Admits text offsets :=
  ⟨hle.trans hstop, hstop, charIndex_le_charIndex text hle, charIndex_le_length text _⟩

theorem Admits.splice?_eq {offsets : Extent} (h : Admits text offsets) (inserted : List Char) :
    splice? text offsets inserted =
      some (text.take (charIndex text offsets.start) ++ inserted ++
        text.drop (charIndex text offsets.stop)) := by
  obtain ⟨hstart, hstop, hindex, -⟩ := h
  rw [splice?, if_neg (by omega)]

end Text

/-! ### What the replacements made so far have left -/

/-- A text in which some replacements have been made since it was loaded. -/
structure Leaves (loaded : List Char) (made : List Replacement) (text : List Char) : Prop where
  /-- In front of all replacements the text is as it was loaded. -/
  front : ∀ before after, loaded = before ++ after →
    (∀ replacement ∈ made, byteSize before ≤ replacement.range.offsets.start) →
      ∃ tail, text = before ++ tail
  /-- The text still reaches to every place before the first range that was replaced. -/
  le_size : ∀ place ≤ byteSize loaded,
    (∀ replacement ∈ made, place ≤ replacement.range.offsets.start ∨
      replacement.range.offsets.start = replacement.range.offsets.stop) → place ≤ byteSize text

namespace Leaves

theorem nil (loaded : List Char) : Leaves loaded [] loaded :=
  ⟨fun _ after h _ => ⟨after, h⟩, fun _ hle _ => hle⟩

/-- The text has the places of a replacement that may be made next. -/
theorem admits (h : Leaves loaded made text) (hmade : ∀ replacement ∈ made,
      replacement.range.offsets.fits loaded = true)
    (hfits : next.range.offsets.fits loaded = true)
    (hroom : ∀ replacement ∈ made, replacement.LeavesRoom next) :
    Admits text next.range.offsets := by
  obtain ⟨hle, hsize, -⟩ := fits_iff_isBoundary.1 hfits
  refine admits_of_stop_le hle (h.le_size _ hsize fun replacement hmem => ?_)
  have hforward := (fits_iff_isBoundary.1 (hmade replacement hmem)).1
  exact ((hroom replacement hmem).precedes hforward hle).imp id And.left

/-- A further replacement leaves what is in front of it, and takes nothing away if it is an
insertion. -/
theorem splice (h : Leaves loaded made text) (hfits : next.range.offsets.fits loaded = true)
    (hroom : ∀ replacement ∈ made, replacement.LeavesRoom next) :
    Leaves loaded (made ++ [next])
      (text.take (charIndex text next.range.offsets.start) ++ next.text.toList ++
        text.drop (charIndex text next.range.offsets.stop)) := by
  obtain ⟨before, part, after, hloaded, hstart, -⟩ := fits_iff.1 hfits
  obtain ⟨tail, rfl⟩ := h.front before (part ++ after) hloaded fun replacement hmem =>
    hstart ▸ (hroom replacement hmem).start_le
  have hbefore : (before ++ tail).take (charIndex (before ++ tail) next.range.offsets.start) =
      before := by
    rw [hstart, charIndex_byteSize, List.take_left]
  rw [hbefore, List.append_assoc]
  refine ⟨fun before' after' hloaded' hfront => ?_, fun place hle hplace => ?_⟩
  · have hle : byteSize before' ≤ byteSize before := hstart ▸ hfront next (by simp)
    obtain ⟨between, rfl⟩ := exists_append_of_byteSize_le (hloaded'.symm.trans hloaded) hle
    exact ⟨_, List.append_assoc before' between _⟩
  · rw [byteSize_append]
    rcases hplace next (by simp) with hfront | hempty
    · rw [hstart] at hfront
      omega
    · -- an insertion: nothing of the text is lost
      have hsize := h.le_size place hle fun replacement hmem => hplace replacement (by simp [hmem])
      have htail : (before ++ tail).drop (charIndex (before ++ tail) next.range.offsets.stop) =
          tail := by
        rw [← hempty, hstart, charIndex_byteSize, List.drop_left]
      rw [htail, byteSize_append]
      rw [byteSize_append] at hsize
      omega

/-- A replacement that fits the loaded text and may be made next is made. -/
theorem exists_apply (h : Leaves loaded made text)
    (hmade : ∀ replacement ∈ made, replacement.range.offsets.fits loaded = true)
    (hfits : next.range.offsets.fits loaded = true)
    (hroom : ∀ replacement ∈ made, replacement.LeavesRoom next) :
    ∃ changed, next.apply loaded text = .done changed ∧ Leaves loaded (made ++ [next]) changed := by
  refine ⟨_, ?_, h.splice hfits hroom⟩
  rw [Replacement.apply, if_pos hfits, (h.admits hmade hfits hroom).splice?_eq]

/-- Some replacements are made one after the other up to the first that does not fit the loaded
text. -/
theorem applyReplacements (h : Leaves loaded made text)
    (hmade : ∀ replacement ∈ made, replacement.range.offsets.fits loaded = true)
    (hroom : (made ++ pending).Pairwise Replacement.LeavesRoom) :
    ((∀ replacement ∈ pending, replacement.range.offsets.fits loaded = true) ∧
        ∃ changed, ElementLint.applyReplacements loaded pending text = .done changed ∧
          Leaves loaded (made ++ pending) changed) ∨
      ∃ replacement ∈ pending, replacement.range.offsets.fits loaded = false ∧
        ElementLint.applyReplacements loaded pending text =
          .failed (replacement.misfit loaded) := by
  induction pending generalizing made text with
  | nil => exact .inl ⟨by simp, text, rfl, by rwa [List.append_nil]⟩
  | cons next pending ih =>
    rw [ElementLint.applyReplacements]
    by_cases hfits : next.range.offsets.fits loaded = true
    · obtain ⟨changed, hchanged, hleaves⟩ := h.exists_apply hmade hfits fun replacement hmem =>
        (List.pairwise_append.1 hroom).2.2 replacement hmem next List.mem_cons_self
      have hmade' : ∀ replacement ∈ made ++ [next],
          replacement.range.offsets.fits loaded = true := by
        simpa [or_imp, forall_and, hfits] using hmade
      rw [List.append_cons] at hroom ⊢
      rw [hchanged, Outcome.bind]
      refine (ih hleaves hmade' hroom).imp ?_ ?_
      · exact And.imp_left fun hall => List.forall_mem_cons.2 ⟨hfits, hall⟩
      · rintro ⟨replacement, hmem, hfailed⟩
        exact ⟨replacement, List.mem_cons_of_mem _ hmem, hfailed⟩
    · refine .inr ⟨next, List.mem_cons_self, by simpa using hfits, ?_⟩
      rw [Replacement.apply, if_neg hfits, Outcome.bind]

end Leaves

/-! ### Files -/

namespace EditSelection

variable {selection : EditSelection} {loader : Loader} {file : String} {contents : String}

/-- The edits of a file come to a replacement: those before it in their order have been made, and
its range fits the text that was loaded. -/
structure Reaches (selection : EditSelection) (loader : Loader) (file contents : String)
    (made : List Replacement) (next : Replacement) (text : List Char) : Prop where
  load_eq : loader.load file = .done contents
  exists_replacementsOf : ∃ pending, selection.replacementsOf file = made ++ next :: pending
  text_eq : applyReplacements contents.toList made contents.toList = .done text
  fits : next.range.offsets.fits contents.toList = true

theorem Reaches.admits (h : selection.Reaches loader file contents made next text)
    (hapart : Apart selection.replacements) : Admits text next.range.offsets := by
  obtain ⟨pending, hall⟩ := h.exists_replacementsOf
  have hroom := pairwise_leavesRoom_replacementsOf hapart file
  rw [hall] at hroom
  obtain ⟨hmade, -, hnext⟩ := List.pairwise_append.1 hroom
  rcases (Leaves.nil contents.toList).applyReplacements (by simp) hmade with
    ⟨hfits, changed, hchanged, hleaves⟩ | ⟨replacement, -, -, hfailed⟩
  · obtain rfl := Outcome.done.inj (hchanged.symm.trans h.text_eq)
    exact hleaves.admits hfits h.fits fun replacement hmem =>
      hnext replacement hmem next List.mem_cons_self
  · rw [h.text_eq] at hfailed
    contradiction

end EditSelection

end ElementLint
