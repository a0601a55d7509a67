import ElementLint.Text.Extent

/-!
# Slices of a text

The byte offsets at which a text can be cut are the sizes of its beginnings
(`Text.isBoundary_iff`). `Text.slice?` cuts out what lies in an extent, and fails if the extent
leaves the text or cuts a character; `Text.slice?_eq_some_iff` says what a slice is without
mentioning offsets inside the text.
-/

namespace ElementLint.Text

@[simp]
theorem byteSize_nil : byteSize [] = 0 := rfl

@[simp]
theorem byteSize_cons (c : Char) (text : List Char) :
    byteSize (c :: text) = c.utf8Size + byteSize text := rfl

@[simp]
theorem byteSize_append (first second : List Char) :
    byteSize (first ++ second) = byteSize first + byteSize second := by
  induction first with
  | nil => simp
  | cons c rest ih => simp [ih, Nat.add_assoc]

/-- A text without bytes has no characters. -/
theorem eq_nil_of_byteSize_eq_zero {text : List Char} (h : byteSize text = 0) : text = [] := by
  cases text with
  | nil => rfl
  | cons c rest =>
    have hpos := c.utf8Size_pos
    rw [byteSize_cons] at h
    omega

/-- A text that is not empty has bytes. -/
theorem byteSize_pos {text : List Char} (h : text ≠ []) : 0 < byteSize text :=
  Nat.pos_of_ne_zero fun hzero => h (eq_nil_of_byteSize_eq_zero hzero)

/-- The place after some first characters is a boundary. -/
theorem isBoundary_byteSize (before after : List Char) :
    isBoundary (before ++ after) (byteSize before) = true := by
  induction before with
  | nil => simp [isBoundary]
  | cons c rest ih =>
    -- the place is not `0`, so the test goes on behind the first character
    obtain ⟨n, hn⟩ : ∃ n, byteSize (c :: rest) = n + 1 :=
      Nat.exists_eq_succ_of_ne_zero (Nat.ne_of_gt (byteSize_pos (List.cons_ne_nil c rest)))
    rw [byteSize_cons] at hn
    have hsub : n + 1 - c.utf8Size = byteSize rest := by omega
    rw [List.cons_append, byteSize_cons, hn, isBoundary, hsub, ih]
    simp only [Bool.and_true, decide_eq_true_eq]
    omega

/-- The boundaries of a text are the sizes of its beginnings. -/
theorem isBoundary_iff {text : List Char} {offset : Nat} :
    isBoundary text offset = true ↔
      ∃ before after, text = before ++ after ∧ offset = byteSize before := by
  constructor
  · intro h
    fun_induction isBoundary text offset with
    | case1 text => exact ⟨[], text, rfl, rfl⟩
    | case2 => contradiction
    | case3 c rest offset ih =>
      rw [Bool.and_eq_true, decide_eq_true_eq] at h
      obtain ⟨before, after, rfl, hoffset⟩ := ih h.2
      refine ⟨c :: before, after, rfl, ?_⟩
      rw [byteSize_cons]
      omega
  · rintro ⟨before, after, rfl, rfl⟩
    exact isBoundary_byteSize before after

/-- The character at the place after some first characters is the next one. -/
theorem charIndex_byteSize (before after : List Char) :
    charIndex (before ++ after) (byteSize before) = before.length := by
  induction before with
  | nil =>
    cases after with
    | nil => rfl
    | cons c rest => simp [charIndex, c.utf8Size_pos]
  | cons c rest ih =>
    rw [List.cons_append, byteSize_cons, charIndex, if_neg (by omega), Nat.add_sub_cancel_left, ih,
      List.length_cons]
    omega

/-- Two beginnings of a text of which one is not longer than the other in bytes. -/
theorem exists_append_of_byteSize_le {first second firstRest secondRest : List Char}
    (htext : first ++ firstRest = second ++ secondRest) (hle : byteSize first ≤ byteSize second) :
    ∃ between, second = first ++ between := by
  rcases List.append_eq_append_iff.1 htext with ⟨between, hsecond, -⟩ | ⟨between, hfirst, -⟩
  · exact ⟨between, hsecond⟩
  · -- what the first beginning has more than the second one has no bytes
    have hsize : byteSize between = 0 := by
      rw [hfirst, byteSize_append] at hle
      omega
    rw [eq_nil_of_byteSize_eq_zero hsize, List.append_nil] at hfirst
    exact ⟨[], by rw [hfirst, List.append_nil]⟩

/-- An extent fits a text if it goes forward from one boundary of the text to another one. -/
theorem fits_iff_isBoundary {text : List Char} {extent : Extent} :
    extent.fits text = true ↔ extent.start ≤ extent.stop ∧ extent.stop ≤ byteSize text ∧
      isBoundary text extent.start = true ∧ isBoundary text extent.stop = true := by
  simp only [Extent.fits, Bool.and_eq_true, decide_eq_true_eq, and_assoc]

/-- An extent fits a text if it lies between the sizes of two beginnings of the text. -/
theorem fits_iff {text : List Char} {extent : Extent} :
    extent.fits text = true ↔
      ∃ before part after, text = before ++ (part ++ after) ∧ extent.start = byteSize before ∧
        extent.stop = byteSize before + byteSize part := by
  rw [fits_iff_isBoundary, isBoundary_iff, isBoundary_iff]
  constructor
  · rintro ⟨hle, -, ⟨before, rest, htext, hstart⟩, upto, after, htext', hstop⟩
    -- the beginning that ends the extent is longer than the one that starts it
    obtain ⟨part, rfl⟩ := exists_append_of_byteSize_le (htext.symm.trans htext') (by omega)
    exact ⟨before, part, after, by rw [htext', List.append_assoc], hstart,
      by rw [hstop, byteSize_append]⟩
  · rintro ⟨before, part, after, rfl, hstart, hstop⟩
    refine ⟨by omega, ?_, ⟨before, part ++ after, rfl, hstart⟩, before ++ part, after, ?_, ?_⟩
    · rw [hstop, byteSize_append, byteSize_append]
      omega
    · rw [List.append_assoc]
    · rw [hstop, byteSize_append]

/-- A slice of a text is what stands between a beginning and an end of it. -/
theorem slice?_eq_some_iff {text part : List Char} {extent : Extent} :
    slice? text extent = some part ↔
      ∃ before after, text = before ++ (part ++ after) ∧ extent.start = byteSize before ∧
        extent.stop = byteSize before + byteSize part := by
  -- the characters that are cut out by number are those between the two beginnings
  have hcut : ∀ before part after : List Char,
      ((before ++ (part ++ after)).take
          (charIndex (before ++ (part ++ after)) (byteSize before + byteSize part))).drop
        (charIndex (before ++ (part ++ after)) (byteSize before)) = part := by
    intro before part after
    have hstop := charIndex_byteSize (before ++ part) after
    rw [List.append_assoc, byteSize_append] at hstop
    rw [hstop, charIndex_byteSize, ← List.append_assoc, List.take_left, List.drop_left]
  unfold slice?
  constructor
  · intro h
    split at h
    · next hfits =>
      obtain ⟨before, inner, after, rfl, hstart, hstop⟩ := fits_iff.1 hfits
      rw [hstart, hstop, hcut, Option.some.injEq] at h
      subst h
      exact ⟨before, after, rfl, hstart, hstop⟩
    · contradiction
  · rintro ⟨before, after, rfl, hstart, hstop⟩
    rw [if_pos (fits_iff.2 ⟨before, part, after, rfl, hstart, hstop⟩), hstart, hstop, hcut]

/-- Slicing succeeds only on extents that fit. -/
theorem fits_of_slice?_eq_some {text part : List Char} {extent : Extent}
    (h : slice? text extent = some part) : extent.fits text = true := by
  obtain ⟨before, after, htext, hstart, hstop⟩ := slice?_eq_some_iff.1 h
  exact fits_iff.2 ⟨before, part, after, htext, hstart, hstop⟩

end ElementLint.Text
