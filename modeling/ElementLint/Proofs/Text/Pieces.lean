import ElementLint.Text.Blank

/-!
# Cutting texts

A run of characters of a kind ends before the first other character (`Text.takeWhile_append_eq`,
`Text.dropWhile_append_eq`). The pieces of a text hold no separator and give the text again when
they are joined (`Text.cutsAt_pieces`); each separator ends a piece
(`Text.pieces_append_separator`). Trimming takes the blanks off both ends of a text
(`Text.trims_trim`).
-/

namespace ElementLint.Text

variable {p : Char → Bool} {run rest text : List Char} {c : Char}

/-! ### Runs -/

theorem takeWhile_eq_nil_of_head? (h : ∀ c ∈ rest.head?, p c = false) : rest.takeWhile p = [] := by
  cases rest with
  | nil => rfl
  | cons c rest => simp [h c rfl]

theorem dropWhile_eq_self_of_head? (h : ∀ c ∈ rest.head?, p c = false) :
    rest.dropWhile p = rest := by
  cases rest with
  | nil => rfl
  | cons c rest => simp [h c rfl]

/-- A run of accepted characters ends before the first other one. -/
theorem takeWhile_append_eq (hrun : ∀ c ∈ run, p c = true)
    (hrest : ∀ c ∈ rest.head?, p c = false) : (run ++ rest).takeWhile p = run := by
  rw [List.takeWhile_append_of_pos hrun, takeWhile_eq_nil_of_head? hrest, List.append_nil]

/-- What follows a run of accepted characters starts with the first other one. -/
theorem dropWhile_append_eq (hrun : ∀ c ∈ run, p c = true)
    (hrest : ∀ c ∈ rest.head?, p c = false) : (run ++ rest).dropWhile p = rest := by
  rw [List.dropWhile_append_of_pos hrun, dropWhile_eq_self_of_head? hrest]

theorem of_mem_takeWhile (h : c ∈ text.takeWhile p) : p c = true :=
  List.all_eq_true.1 List.all_takeWhile c h

theorem of_mem_head?_dropWhile (h : c ∈ (text.dropWhile p).head?) : p c = false := by
  have hnot := List.head?_dropWhile_not p text
  rw [Option.mem_def.1 h] at hnot
  exact hnot

/-! ### Pieces -/

theorem pieces_ne_nil (isSeparator : Char → Bool) (text : List Char) :
    pieces isSeparator text ≠ [] := by
  cases text with
  | nil => simp [pieces]
  | cons c rest =>
    rw [pieces]
    split
    · simp
    · split <;> simp

/-- A separator before a text gives one empty piece more, and any other character belongs to the
first piece. -/
theorem pieces_cons (isSeparator : Char → Bool) (c : Char) (rest : List Char) :
    ∃ piece more, pieces isSeparator rest = piece :: more ∧
      pieces isSeparator (c :: rest) =
        if isSeparator c then [] :: piece :: more else (c :: piece) :: more := by
  obtain ⟨piece, more, h⟩ := List.exists_cons_of_ne_nil (pieces_ne_nil isSeparator rest)
  refine ⟨piece, more, h, ?_⟩
  rw [pieces, h]

/-- No piece holds a separator. -/
theorem not_of_mem_pieces {isSeparator : Char → Bool} {piece : List Char}
    (hpiece : piece ∈ pieces isSeparator text) (hc : c ∈ piece) : isSeparator c = false := by
  induction text generalizing piece c with
  | nil => simp_all [pieces]
  | cons first rest ih =>
    obtain ⟨head, more, hrest, hpieces⟩ := pieces_cons isSeparator first rest
    rw [hrest] at ih
    rw [hpieces] at hpiece
    split at hpiece
    · rcases List.mem_cons.1 hpiece with rfl | hpiece
      · contradiction
      · exact ih hpiece hc
    · next hfirst =>
      rcases List.mem_cons.1 hpiece with rfl | hpiece
      · rcases List.mem_cons.1 hc with rfl | hc
        · simpa using hfirst
        · exact ih List.mem_cons_self hc
      · exact ih (List.mem_cons_of_mem _ hpiece) hc

/-- A separator between two texts keeps the pieces of both apart. -/
theorem pieces_append_separator {isSeparator : Char → Bool} {c : Char} (before : List Char)
    (hc : isSeparator c = true) (rest : List Char) :
    pieces isSeparator (before ++ c :: rest) =
      pieces isSeparator before ++ pieces isSeparator rest := by
  induction before with
  | nil =>
    obtain ⟨piece, more, hrest, hpieces⟩ := pieces_cons isSeparator c rest
    rw [List.nil_append, hpieces, if_pos hc, hrest]
    rfl
  | cons d before ih =>
    obtain ⟨piece, more, hbefore, hpieces⟩ := pieces_cons isSeparator d before
    rw [List.cons_append, pieces, ih, hpieces, hbefore]
    simp only [List.cons_append]
    split <;> rfl

/-- A text without separators is one piece. -/
theorem pieces_eq_singleton {isSeparator : Char → Bool} (h : ∀ c ∈ text, isSeparator c = false) :
    pieces isSeparator text = [text] := by
  induction text with
  | nil => rfl
  | cons c rest ih =>
    obtain ⟨hc, hrest⟩ := List.forall_mem_cons.1 h
    rw [pieces, ih hrest]
    simp [hc]

/-- A separator behind a run without separators ends the first piece. -/
theorem pieces_append_cons {isSeparator : Char → Bool} {c : Char} {run : List Char}
    (hrun : ∀ d ∈ run, isSeparator d = false) (hc : isSeparator c = true) (rest : List Char) :
    pieces isSeparator (run ++ c :: rest) = run :: pieces isSeparator rest := by
  rw [pieces_append_separator run hc rest, pieces_eq_singleton hrun, List.singleton_append]

/-- A character that is no separator stands in one of the pieces. -/
theorem exists_mem_pieces_iff {isSeparator : Char → Bool} (hc : isSeparator c = false) :
    (∃ piece ∈ pieces isSeparator text, c ∈ piece) ↔ c ∈ text := by
  induction text with
  | nil => simp [pieces]
  | cons first rest ih =>
    obtain ⟨head, more, hrest, hpieces⟩ := pieces_cons isSeparator first rest
    rw [hrest] at ih
    rw [hpieces, List.mem_cons, ← ih]
    split
    · next hfirst =>
      have hne : c ≠ first := fun heq => by simp [← heq, hc] at hfirst
      simp [hne]
    · simp [or_assoc]

/-- The pieces between the separators make up the text. -/
theorem intercalate_pieces (separator : Char) (text : List Char) :
    [separator].intercalate (pieces (· == separator) text) = text := by
  induction text with
  | nil => rfl
  | cons c rest ih =>
    obtain ⟨piece, more, hrest, hpieces⟩ := pieces_cons (· == separator) c rest
    rw [hrest] at ih
    rw [hpieces]
    split
    · next hc => simp [List.intercalate_cons_cons, ih, beq_iff_eq.1 hc]
    · cases more <;> simp_all [List.intercalate_cons_cons]

/-- A text is cut at every place of a separator. -/
structure CutsAt (separator : Char) (text : List Char) (pieces : List (List Char)) : Prop where
  ne_nil : pieces ≠ []
  intercalate_eq : [separator].intercalate pieces = text
  separator_not_mem : ∀ piece ∈ pieces, separator ∉ piece

theorem cutsAt_pieces (separator : Char) (text : List Char) :
    CutsAt separator text (pieces (· == separator) text) where
  ne_nil := pieces_ne_nil _ text
  intercalate_eq := intercalate_pieces separator text
  separator_not_mem _ hpiece hmem := by
    have := not_of_mem_pieces hpiece hmem
    simp at this

/-! ### Blanks at the ends -/

/-- A text is another one without the blanks at its ends. -/
structure Trims (text trimmed : List Char) : Prop where
  eq_append : ∃ before after, text = before ++ trimmed ++ after ∧
    (∀ c ∈ before, isBlank c = true) ∧ ∀ c ∈ after, isBlank c = true
  head : ∀ c ∈ trimmed.head?, isBlank c = false
  last : ∀ c ∈ trimmed.getLast?, isBlank c = false

/-- A text with no blank at its ends stays as it is. -/
theorem trim_eq_self (hhead : ∀ c ∈ text.head?, isBlank c = false)
    (hlast : ∀ c ∈ text.getLast?, isBlank c = false) : trim text = text := by
  rw [← List.head?_reverse] at hlast
  rw [trim, dropWhile_eq_self_of_head? hhead, dropWhile_eq_self_of_head? hlast,
    List.reverse_reverse]

/-- Blanks before a text do not count. -/
theorem trim_blanks_append {blanks : List Char} (h : ∀ c ∈ blanks, isBlank c = true)
    (text : List Char) : trim (blanks ++ text) = trim text := by
  rw [trim, List.dropWhile_append_of_pos h, trim]

/-- Trimming a text takes away no more than what stands behind a character that is no blank. -/
theorem exists_trim_append_cons (hhead : ∀ d ∈ (run ++ c :: rest).head?, isBlank d = false)
    (hc : isBlank c = false) :
    ∃ kept, trim (run ++ c :: rest) = run ++ c :: kept ∧ kept <+: rest := by
  have hreverse : (run ++ c :: rest).reverse = rest.reverse ++ c :: run.reverse := by simp
  refine ⟨(rest.reverse.dropWhile isBlank).reverse, ?_, ?_⟩
  · have hstart := dropWhile_eq_self_of_head? hhead
    rw [trim, hstart, hreverse, List.dropWhile_append]
    split
    · next hempty =>
      rw [List.isEmpty_iff.1 hempty, dropWhile_eq_self_of_head? (by simpa using hc)]
      simp
    · simp
  · rw [← List.reverse_suffix, List.reverse_reverse]
    exact List.dropWhile_suffix _

theorem trims_trim (text : List Char) : Trims text (trim text) := by
  have hfront := List.takeWhile_append_dropWhile (p := isBlank) (l := text)
  generalize hrest : text.dropWhile isBlank = rest at hfront
  have hback := congrArg List.reverse
    (List.takeWhile_append_dropWhile (p := isBlank) (l := rest.reverse))
  rw [List.reverse_append, List.reverse_reverse] at hback
  have htrim : trim text = (rest.reverse.dropWhile isBlank).reverse := by rw [trim, hrest]
  refine ⟨⟨text.takeWhile isBlank, (rest.reverse.takeWhile isBlank).reverse, ?_, ?_, ?_⟩, ?_, ?_⟩
  · rw [htrim, List.append_assoc, hback, hfront]
  · exact fun c hc => of_mem_takeWhile hc
  · exact fun c hc => of_mem_takeWhile (List.mem_reverse.1 hc)
  · intro c hc
    -- the first character is still there, since blanks are taken off the end alone
    rw [← hback, ← htrim] at hrest
    have hfirst : c ∈ (text.dropWhile isBlank).head? := by
      rw [hrest, List.head?_append, Option.mem_def.1 hc]
      rfl
    exact of_mem_head?_dropWhile hfirst
  · intro c hc
    rw [htrim, List.getLast?_reverse] at hc
    exact of_mem_head?_dropWhile hc

end ElementLint.Text
