import ElementLint.Proofs.Span.StartTag
import ElementLint.Span.Mark

/-!
# Places of marks

The scan for tags only ever moves forward in the text, and never into a character
(`Mark.Visits.standsIn`). So every tag that it finds stands in the text
(`Mark.standsIn_of_mem_scan`), and the tags come one after the other (`Mark.pairwise_scan`).
-/

namespace ElementLint.Span

open Text Cursor

variable {text : List Char} {cursor : Cursor}

/-- Letters belong to tag names. -/
theorem inTagName_of_isAlpha {c : Char} (h : c.isAlpha = true) : inTagName c = true := by
  by_contra hnot
  simp only [inTagName, isTagBlank, Bool.and_eq_true, Bool.not_eq_true', Bool.or_eq_false_iff,
    bne_iff_ne, beq_eq_false_iff_ne, not_and_or, not_not] at hnot
  rcases hnot with (((((rfl | rfl) | rfl) | rfl) | rfl) | rfl) | rfl <;> exact absurd h (by decide)

/-- The text of an element is passed over. -/
theorem passes_skipRawText (name : String) (cursor : Cursor) :
    ∃ passed, Passes cursor passed (skipRawText name cursor) := by
  unfold skipRawText
  split
  · exact cursor.passes_skipTo _
  · exact ⟨[], Passes.refl _⟩

namespace Mark

/-- The place where a tag starts. -/
def start : Mark → Nat
  | .opening span _ => span.start
  | .closing _ extent => extent.start

/-- The place where a tag ends. -/
def stop : Mark → Nat
  | .opening span _ => span.startTagEnd
  | .closing _ extent => extent.stop

/-- A tag stands in a text. The element of a start tag ends with the tag until its end tag is known;
the name of an end tag is what follows its slash, in small letters. -/
def StandsIn (text : List Char) : Mark → Prop
  | .opening span _ => span.StandsIn text ∧ span.stop = span.startTagEnd
  | .closing name extent => extent.fits text = true ∧ ∃ written nameEnd, written ≠ [] ∧
      slice? text ⟨extent.start + 2, nameEnd⟩ = some written ∧ nameEnd ≤ extent.stop ∧
      name = String.ofList (lower written)

namespace StandsIn

variable {mark : Mark}

theorem start_le_stop (h : mark.StandsIn text) : mark.start ≤ mark.stop := by
  cases mark with
  | opening span hasContent => exact (h.1.start_lt_nameEnd.trans_le h.1.nameEnd_le_startTagEnd).le
  | closing name extent => exact (fits_iff_isBoundary.1 h.1).1

theorem stop_boundary (h : mark.StandsIn text) : isBoundary text mark.stop = true := by
  cases mark with
  | opening span hasContent => exact h.1.startTagEnd_boundary
  | closing name extent => exact (fits_iff_isBoundary.1 h.1).2.2.2

theorem start_boundary (h : mark.StandsIn text) : isBoundary text mark.start = true := by
  cases mark with
  | opening span hasContent => exact h.1.start_boundary
  | closing name extent => exact (fits_iff_isBoundary.1 h.1).2.2.1

theorem stop_le (h : mark.StandsIn text) : mark.stop ≤ byteSize text := by
  cases mark with
  | opening span hasContent => exact h.1.startTagEnd_le_stop.trans h.1.stop_le
  | closing name extent => exact (fits_iff_isBoundary.1 h.1).2.1

end StandsIn

/-! ### One step of the scan -/

/-- A start tag stands in the text, and the scan goes on after it. -/
theorem ofStartTag_standsIn {first : Char} {rest : List Char}
    (hrest : cursor.rest = '<' :: first :: rest) (h : cursor.StandsIn text)
    (hfirst : inTagName first = true) :
    (∃ passed, Passes cursor passed (ofStartTag cursor.offset (first :: rest)).2) ∧
      (ofStartTag cursor.offset (first :: rest)).1.StandsIn text ∧
      (ofStartTag cursor.offset (first :: rest)).1.start = cursor.offset ∧
      (ofStartTag cursor.offset (first :: rest)).1.stop ≤
        (ofStartTag cursor.offset (first :: rest)).2.offset := by
  have hcursor : cursor = ⟨cursor.offset, '<' :: first :: rest⟩ := by rw [← hrest]
  rw [hcursor] at h
  obtain ⟨⟨passed, hpassed⟩, hspan⟩ := TagSpan.standsIn_ofStartTag h hfirst
  rw [← hcursor] at hpassed
  obtain ⟨raw, hraw⟩ := passes_skipRawText (TagSpan.ofStartTag cursor.offset (first :: rest)).1.name
    (TagSpan.ofStartTag cursor.offset (first :: rest)).2
  unfold ofStartTag
  dsimp only
  refine ⟨?_, ⟨hspan, rfl⟩, rfl, ?_⟩
  · split
    · exact ⟨_, hpassed.trans hraw⟩
    · exact ⟨_, hpassed⟩
  · -- the text of the element, if it is passed over too, is no part of the tag
    split
    · exact hraw.offset_le
    · exact le_rfl

/-- An end tag stands in the text, and the scan goes on after it. -/
theorem ofEndTag_standsIn {rest : List Char} (hrest : cursor.rest = '<' :: '/' :: rest)
    (h : cursor.StandsIn text) :
    (∃ passed, Passes cursor passed (ofEndTag cursor.offset rest).2) ∧
      ∀ mark ∈ (ofEndTag cursor.offset rest).1, mark.StandsIn text ∧ mark.start = cursor.offset ∧
        mark.stop ≤ (ofEndTag cursor.offset rest).2.offset := by
  have hopen : Passes cursor ['<', '/'] ⟨cursor.offset + 2, rest⟩ := ⟨hrest, rfl⟩
  have hname : Passes ⟨cursor.offset + 2, rest⟩ _ _ :=
    passes_drop_word (List.takeWhile_prefix inTagName)
  obtain ⟨passed, hpassed⟩ := ((Cursor.mk (cursor.offset + 2) rest).drop
    (rest.takeWhile inTagName).length).passes_skipPast ['>']
  have hall := (hopen.trans hname).trans hpassed
  -- an end tag without a name is passed over like any other, but it is no tag
  unfold ofEndTag
  dsimp only
  refine ⟨⟨_, hall⟩, ?_⟩
  split
  · simp
  · next hne =>
    rintro mark ⟨⟩
    have hwritten : rest.takeWhile inTagName ≠ [] := by simpa using hne
    have hfits := fits_of_slice?_eq_some (hall.slice?_eq h)
    exact ⟨⟨hfits, _, _, hwritten, hname.slice?_eq (hopen.standsIn h), hpassed.offset_le, rfl⟩,
      rfl, le_rfl⟩

theorem next_text {c : Char} {rest : List Char} {place : Nat} (hc : c ≠ '<') :
    next ⟨place, c :: rest⟩ = (none, ⟨place + c.utf8Size, rest⟩) := by
  simp [next, hc]

/-- A letter after `<` starts a tag. -/
theorem next_of_isAlpha {c : Char} {rest : List Char} {place : Nat} (halpha : c.isAlpha = true) :
    next ⟨place, '<' :: c :: rest⟩ =
      (some (ofStartTag place (c :: rest)).1, (ofStartTag place (c :: rest)).2) := by
  -- all other kinds of tags start with characters that are no letters
  have hne : ∀ d : Char, d.isAlpha = false → c ≠ d := by
    rintro d hd rfl
    rw [halpha] at hd
    contradiction
  unfold next
  split
  · contradiction
  · next heq => exact absurd (List.cons.inj (List.cons.inj heq).2).1 (hne '!' rfl)
  · next heq => exact absurd (List.cons.inj (List.cons.inj heq).2).1 (hne '!' rfl)
  · next heq => exact absurd (List.cons.inj (List.cons.inj heq).2).1 (hne '?' rfl)
  · next heq => exact absurd (List.cons.inj (List.cons.inj heq).2).1 (hne '/' rfl)
  · next heq =>
    obtain ⟨rfl, rfl⟩ := List.cons.inj (List.cons.inj heq).2
    rw [if_pos halpha]
  · next hother heq =>
    obtain ⟨hfirst, hrest⟩ := List.cons.inj heq
    exact absurd hrest.symm (hother _ _ hfirst.symm)

/-- A step of the scan moves forward over some text, in which the tag stands that it finds. -/
theorem next_standsIn (h : cursor.StandsIn text) :
    (∃ passed, Passes cursor passed (next cursor).2) ∧
      ∀ mark ∈ (next cursor).1, mark.StandsIn text ∧ mark.start = cursor.offset ∧
        mark.stop ≤ (next cursor).2.offset := by
  unfold next
  split
  · -- the end of the text
    exact ⟨⟨[], Passes.refl _⟩, by simp⟩
  · next rest hrest =>
    -- a comment
    have hopen : Passes cursor ['<', '!', '-', '-'] ⟨cursor.offset + 4, rest⟩ := ⟨hrest, rfl⟩
    exact ⟨hopen.exists_skipPast ['-', '-', '>'], by simp⟩
  · next rest _ hrest =>
    -- a declaration
    have hopen : Passes cursor ['<', '!'] ⟨cursor.offset + 2, rest⟩ := ⟨hrest, rfl⟩
    exact ⟨hopen.exists_skipPast ['>'], by simp⟩
  · next rest hrest =>
    -- an instruction
    have hopen : Passes cursor ['<', '?'] ⟨cursor.offset + 2, rest⟩ := ⟨hrest, rfl⟩
    exact ⟨hopen.exists_skipPast ['>'], by simp⟩
  · next rest hrest => exact ofEndTag_standsIn hrest h
  · next c rest _ _ _ _ hrest =>
    split
    · next halpha =>
      obtain ⟨hmove, hmark⟩ := ofStartTag_standsIn hrest h (inTagName_of_isAlpha halpha)
      refine ⟨hmove, ?_⟩
      rintro mark ⟨⟩
      exact hmark
    · -- a `<` that starts nothing
      exact ⟨⟨['<'], hrest, rfl⟩, by simp⟩
  · next c rest _ _ _ _ _ hrest => exact ⟨⟨[c], hrest, rfl⟩, by simp⟩

/-! ### The scan -/

theorem scan_eq_append {after : Cursor} {mark : Option Mark} (hrest : cursor.rest ≠ [])
    (h : next cursor = (mark, after)) :
    scan cursor = mark.toList ++ scan after := by
  rw [scan, dif_neg hrest, h]

/-- The places to which the scan of a text comes, one step after the other. -/
inductive Visits (text : List Char) : Cursor → Prop
  | start : Visits text ⟨0, text⟩
  | next {cursor : Cursor} : Visits text cursor → cursor.rest ≠ [] → Visits text (next cursor).2

/-- The scan stays in the text and between its characters. -/
theorem Visits.standsIn (h : Visits text cursor) : cursor.StandsIn text := by
  induction h with
  | start => exact standsIn_start text
  | next _ _ ih =>
    obtain ⟨⟨passed, hpassed⟩, -⟩ := next_standsIn ih
    exact hpassed.standsIn ih

/-- Every tag that the scan finds from a place on stands in the text, not before that place. -/
theorem standsIn_of_mem_scan (h : cursor.StandsIn text) :
    ∀ mark ∈ scan cursor, mark.StandsIn text ∧ cursor.offset ≤ mark.start := by
  fun_induction scan cursor with
  | case1 => simp
  | case2 cursor hne found ih =>
    obtain ⟨⟨passed, hpassed⟩, hmark⟩ := next_standsIn h
    intro mark hmem
    rcases List.mem_append.1 hmem with hfound | hlater
    · obtain ⟨hstands, hstart, -⟩ := hmark mark (Option.mem_toList.1 hfound)
      exact ⟨hstands, hstart.ge⟩
    · obtain ⟨hstands, hstart⟩ := ih (hpassed.standsIn h) mark hlater
      exact ⟨hstands, hpassed.offset_le.trans hstart⟩

/-- The tags of a text come one after the other. -/
theorem pairwise_scan (h : cursor.StandsIn text) :
    (scan cursor).Pairwise (fun a b => a.stop ≤ b.start) := by
  fun_induction scan cursor with
  | case1 => exact .nil
  | case2 cursor hne found ih =>
    obtain ⟨⟨passed, hpassed⟩, hmark⟩ := next_standsIn h
    have hafter := hpassed.standsIn h
    refine List.pairwise_append.2 ⟨?_, ih hafter, ?_⟩
    · cases found.1 with
      | none => exact .nil
      | some mark => exact List.pairwise_singleton _ _
    · intro mark hfound later hlater
      have hstop := (hmark mark (Option.mem_toList.1 hfound)).2.2
      exact hstop.trans (standsIn_of_mem_scan hafter later hlater).2

end Mark

end ElementLint.Span
