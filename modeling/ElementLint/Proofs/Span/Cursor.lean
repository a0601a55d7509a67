import ElementLint.Proofs.Text.Slice
import ElementLint.Span.Cursor

/-!
# What cursors pass over

`Cursor.Passes first passed after` says that a cursor moves over the text `passed`. Every move of a
cursor is such a step; what is passed lies in the text between the two places (`Passes.slice?_eq`).
The second part of the module tells where the moves stop in a text that is known so far.
-/

namespace ElementLint.Span.Cursor

open Text

variable {text passed more : List Char} {first second third : Cursor}

/-- The cursor moves from one place to another one over the given characters. -/
def Passes (first : Cursor) (passed : List Char) (after : Cursor) : Prop :=
  first.rest = passed ++ after.rest ∧ after.offset = first.offset + byteSize passed

/-- The cursor stands in a text: it was moved there from the start of the text. -/
def StandsIn (text : List Char) (cursor : Cursor) : Prop :=
  ∃ before, Passes ⟨0, text⟩ before cursor

namespace Passes

theorem refl (cursor : Cursor) : Passes cursor [] cursor :=
  ⟨rfl, rfl⟩

theorem trans (h : Passes first passed second) (h' : Passes second more third) :
    Passes first (passed ++ more) third := by
  refine ⟨?_, ?_⟩
  · rw [h.1, h'.1, List.append_assoc]
  · rw [h'.2, h.2, byteSize_append, Nat.add_assoc]

/-- A move over what follows a character goes on from a move over the character. -/
theorem cons {c : Char} {offset : Nat} {rest : List Char}
    (h : Passes ⟨offset + c.utf8Size, rest⟩ passed second) :
    Passes ⟨offset, c :: rest⟩ (c :: passed) second := by
  have hfirst : Passes ⟨offset, c :: rest⟩ [c] ⟨offset + c.utf8Size, rest⟩ := ⟨rfl, rfl⟩
  exact hfirst.trans h

/-- A move never goes back. -/
theorem offset_le (h : Passes first passed second) : first.offset ≤ second.offset := by
  rw [h.2]
  exact Nat.le_add_right _ _

/-- A move over a character goes on. -/
theorem offset_lt (h : Passes first passed second) (hne : passed ≠ []) :
    first.offset < second.offset := by
  rw [h.2]
  exact Nat.lt_add_of_pos_right (byteSize_pos hne)

/-- A cursor in a text stays in it when it moves. -/
theorem standsIn (h : Passes first passed second) (hfirst : first.StandsIn text) :
    second.StandsIn text := by
  obtain ⟨before, hbefore⟩ := hfirst
  exact ⟨before ++ passed, hbefore.trans h⟩

/-- What a cursor in a text passes over is the slice of the text between the two places. -/
theorem slice?_eq (h : Passes first passed second) (hfirst : first.StandsIn text) :
    slice? text ⟨first.offset, second.offset⟩ = some passed := by
  obtain ⟨before, htext, hoffset⟩ := hfirst
  rw [h.1] at htext
  rw [slice?_eq_some_iff]
  refine ⟨before, second.rest, htext, ?_, ?_⟩
  · simpa using hoffset
  · rw [h.2, hoffset, Nat.zero_add]

end Passes

/-! ### Cursors in a text -/

/-- The start of a text stands in it. -/
theorem standsIn_start (text : List Char) : StandsIn text ⟨0, text⟩ :=
  ⟨[], Passes.refl _⟩

namespace StandsIn

variable {cursor : Cursor}

/-- A cursor in a text is between two characters. -/
theorem isBoundary (h : cursor.StandsIn text) : isBoundary text cursor.offset = true := by
  obtain ⟨before, htext, hoffset⟩ := h
  rw [Text.isBoundary_iff]
  exact ⟨before, cursor.rest, htext, by rw [hoffset, Nat.zero_add]⟩

/-- The text ends as many bytes after a cursor in it as follow the cursor. -/
theorem offset_add_byteSize (h : cursor.StandsIn text) :
    cursor.offset + byteSize cursor.rest = byteSize text := by
  obtain ⟨before, htext, hoffset⟩ := h
  rw [show text = before ++ cursor.rest from htext, byteSize_append, hoffset, Nat.zero_add]

/-- What follows a cursor in a text is the slice from there to the end of the text. -/
theorem slice?_rest (h : cursor.StandsIn text) :
    slice? text ⟨cursor.offset, byteSize text⟩ = some cursor.rest := by
  have hend : Passes cursor cursor.rest ⟨byteSize text, []⟩ :=
    ⟨(List.append_nil _).symm, h.offset_add_byteSize.symm⟩
  exact hend.slice?_eq h

/-- A cursor in a text is not past its end. -/
theorem offset_le (h : cursor.StandsIn text) : cursor.offset ≤ byteSize text := by
  have hsize := h.offset_add_byteSize
  omega

end StandsIn

/-! ### Every move passes over something -/

theorem passes_drop (n : Nat) (cursor : Cursor) :
    Passes cursor (cursor.rest.take n) (cursor.drop n) :=
  ⟨(List.take_append_drop n cursor.rest).symm, rfl⟩

/-- Moving over as many characters as a first part has passes over that part. -/
theorem passes_drop_word {word : List Char} {cursor : Cursor} (h : word <+: cursor.rest) :
    Passes cursor word (cursor.drop word.length) := by
  have hpasses := passes_drop word.length cursor
  rwa [← List.prefix_iff_eq_take.1 h] at hpasses

theorem passes_skipFrom (p : Char → Bool) (offset : Nat) (text : List Char) :
    Passes ⟨offset, text⟩ (text.takeWhile p) (skipFrom p offset text) := by
  induction text generalizing offset with
  | nil => exact Passes.refl _
  | cons c rest ih =>
    rw [skipFrom, List.takeWhile_cons]
    split
    · exact (ih _).cons
    · exact Passes.refl _

theorem passes_skipWhile (p : Char → Bool) (cursor : Cursor) :
    Passes cursor (cursor.rest.takeWhile p) (cursor.skipWhile p) :=
  passes_skipFrom p cursor.offset cursor.rest

theorem passes_seekFrom (found : List Char → Bool) (offset : Nat) (text : List Char) :
    ∃ passed, Passes ⟨offset, text⟩ passed (seekFrom found offset text) := by
  induction text generalizing offset with
  | nil => exact ⟨[], Passes.refl _⟩
  | cons c rest ih =>
    rw [seekFrom]
    split
    · exact ⟨[], Passes.refl _⟩
    · obtain ⟨passed, hpassed⟩ := ih (offset + c.utf8Size)
      exact ⟨c :: passed, hpassed.cons⟩

theorem passes_skipTo (found : List Char → Bool) (cursor : Cursor) :
    ∃ passed, Passes cursor passed (cursor.skipTo found) :=
  passes_seekFrom found cursor.offset cursor.rest

theorem passes_skipPast (word : List Char) (cursor : Cursor) :
    ∃ passed, Passes cursor passed (cursor.skipPast word) := by
  obtain ⟨passed, hpassed⟩ := cursor.passes_skipTo word.isPrefixOf
  exact ⟨_, hpassed.trans (passes_drop _ _)⟩

theorem Passes.exists_skipPast (h : Passes first passed second) (word : List Char) :
    ∃ passed, Passes first passed (second.skipPast word) := by
  obtain ⟨more, hmore⟩ := second.passes_skipPast word
  exact ⟨_, h.trans hmore⟩

/-! ### Where the moves stop -/

variable {offset : Nat} {rest : List Char}

/-- A search goes on over a text as long as nothing is found in it. -/
theorem seekFrom_append {found : List Char → Bool}
    (hpassed : ∀ last, last <:+ passed → last ≠ [] → found (last ++ rest) = false)
    (hrest : found rest = true) :
    seekFrom found offset (passed ++ rest) = ⟨offset + byteSize passed, rest⟩ := by
  induction passed generalizing offset with
  | nil =>
    cases rest with
    | nil => rfl
    | cons c rest => simp [seekFrom, hrest]
  | cons c passed ih =>
    have hfirst := hpassed (c :: passed) (List.suffix_refl _) (List.cons_ne_nil _ _)
    have hlater : ∀ last, last <:+ passed → last ≠ [] → found (last ++ rest) = false :=
      fun last hlast => hpassed last (hlast.trans (List.suffix_cons c passed))
    rw [List.cons_append] at hfirst ⊢
    rw [seekFrom, hfirst, if_neg Bool.false_ne_true, ih hlater, byteSize_cons, Nat.add_assoc]

theorem drop_append (offset : Nat) (word rest : List Char) :
    (Cursor.mk offset (word ++ rest)).drop word.length = ⟨offset + byteSize word, rest⟩ := by
  rw [drop, List.take_left, List.drop_left]

/-- A move past a word stops after its first occurrence. -/
theorem skipPast_append {word : List Char}
    (hpassed : ∀ last, last <:+ passed → last ≠ [] → ¬ word <+: last ++ (word ++ rest)) :
    (Cursor.mk offset (passed ++ (word ++ rest))).skipPast word =
      ⟨offset + byteSize passed + byteSize word, rest⟩ := by
  have hseek : seekFrom word.isPrefixOf offset (passed ++ (word ++ rest)) =
      ⟨offset + byteSize passed, word ++ rest⟩ := by
    refine seekFrom_append (fun last hlast hne => ?_) ?_
    · rw [← Bool.not_eq_true, List.isPrefixOf_iff_prefix]
      exact hpassed last hlast hne
    · simp
  rw [skipPast, skipTo]
  dsimp only
  rw [hseek, drop_append]

/-- A move past a character stops after its first occurrence. -/
theorem skipPast_singleton_append {c : Char} (hpassed : c ∉ passed) :
    (Cursor.mk offset (passed ++ c :: rest)).skipPast [c] =
      ⟨offset + byteSize passed + c.utf8Size, rest⟩ := by
  refine skipPast_append (fun last hlast hne hstarts => ?_)
  -- a last part of the passed text that starts with the character contains it
  obtain ⟨first, more, rfl⟩ := List.exists_cons_of_ne_nil hne
  rw [List.cons_append, List.singleton_prefix_cons_iff] at hstarts
  exact hpassed (hlast.subset (hstarts ▸ List.mem_cons_self))

/-- A search goes to the end of a text in which nothing is found. -/
theorem rest_seekFrom_eq_nil {found : List Char → Bool}
    (hrest : ∀ last, last <:+ rest → last ≠ [] → found last = false) :
    (seekFrom found offset rest).rest = [] := by
  induction rest generalizing offset with
  | nil => rfl
  | cons c rest ih =>
    rw [seekFrom, hrest (c :: rest) (List.suffix_refl _) (List.cons_ne_nil _ _)]
    exact ih fun last hlast => hrest last (hlast.trans (List.suffix_cons c rest))

/-- A move past a word goes to the end of a text that does not hold it. -/
theorem rest_skipPast_eq_nil {word : List Char} (hword : ¬ word <:+: rest) :
    ((Cursor.mk offset rest).skipPast word).rest = [] := by
  have hseek : (seekFrom word.isPrefixOf offset rest).rest = [] := by
    refine rest_seekFrom_eq_nil fun last hlast _ => ?_
    rw [← Bool.not_eq_true, List.isPrefixOf_iff_prefix]
    exact fun hstarts => hword (hstarts.isInfix.trans hlast.isInfix)
  rw [skipPast, skipTo, drop, hseek, List.drop_nil]

end ElementLint.Span.Cursor
