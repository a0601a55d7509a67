import ElementLint.Proofs.Span.Mark

/-!
# Scans from a later place

The scan looks at the text alone: where the text starts only moves the places that it answers. If
the same text stands some bytes further on, the tags are the same and all their places are moved by
that many bytes (`Mark.scan_shift`).

The module also says when two ways of moving places agree on a tag that stands in a text: they have
to agree on the places from its start to its end (`Mark.StandsIn.mapPlaces_congr`).
-/

namespace ElementLint

open Text

/-- An extent whose places are moved. -/
def Extent.mapPlaces (f : Nat → Nat) (extent : Extent) : Extent :=
  ⟨f extent.start, f extent.stop⟩

namespace Span

/-- An attribute whose places are moved. -/
def AttributeSpan.mapPlaces (f : Nat → Nat) (entry : AttributeSpan) : AttributeSpan :=
  { entry with value := entry.value.map (·.mapPlaces f) }

/-- A span whose places are moved. -/
def TagSpan.mapPlaces (f : Nat → Nat) (span : TagSpan) : TagSpan where
  name := span.name
  start := f span.start
  nameEnd := f span.nameEnd
  startTagEnd := f span.startTagEnd
  stop := f span.stop
  attributes := span.attributes.map (·.mapPlaces f)

@[simp]
theorem TagSpan.mapPlaces_name (f : Nat → Nat) (span : TagSpan) :
    (span.mapPlaces f).name = span.name :=
  rfl

/-- A tag whose places are moved. -/
def Mark.mapPlaces (f : Nat → Nat) : Mark → Mark
  | .opening span hasContent => .opening (span.mapPlaces f) hasContent
  | .closing name extent => .closing name (extent.mapPlaces f)

/-- A cursor in the same text some bytes further on. -/
def Cursor.shift (d : Nat) (cursor : Cursor) : Cursor :=
  ⟨cursor.offset + d, cursor.rest⟩

variable {d : Nat} {cursor : Cursor} {text : List Char}

/-! ### The moves of a cursor -/

namespace Cursor

@[simp]
theorem shift_offset (d : Nat) (cursor : Cursor) : (cursor.shift d).offset = cursor.offset + d :=
  rfl

@[simp]
theorem shift_rest (d : Nat) (cursor : Cursor) : (cursor.shift d).rest = cursor.rest :=
  rfl

theorem skipFrom_shift (p : Char → Bool) (offset : Nat) (text : List Char) :
    skipFrom p (offset + d) text = (skipFrom p offset text).shift d := by
  induction text generalizing offset with
  | nil => rfl
  | cons c rest ih =>
    rw [skipFrom, skipFrom, Nat.add_right_comm, ih]
    split <;> rfl

theorem seekFrom_shift (found : List Char → Bool) (offset : Nat) (text : List Char) :
    seekFrom found (offset + d) text = (seekFrom found offset text).shift d := by
  induction text generalizing offset with
  | nil => rfl
  | cons c rest ih =>
    rw [seekFrom, seekFrom, Nat.add_right_comm, ih]
    split <;> rfl

@[simp]
theorem skipWhile_shift (p : Char → Bool) (cursor : Cursor) :
    (cursor.shift d).skipWhile p = (cursor.skipWhile p).shift d :=
  skipFrom_shift p cursor.offset cursor.rest

@[simp]
theorem drop_shift (n : Nat) (cursor : Cursor) :
    (cursor.shift d).drop n = (cursor.drop n).shift d := by
  simp [drop, shift, Nat.add_right_comm]

@[simp]
theorem skipTo_shift (found : List Char → Bool) (cursor : Cursor) :
    (cursor.shift d).skipTo found = (cursor.skipTo found).shift d :=
  seekFrom_shift found cursor.offset cursor.rest

@[simp]
theorem skipPast_shift (word : List Char) (cursor : Cursor) :
    (cursor.shift d).skipPast word = (cursor.skipPast word).shift d := by
  rw [skipPast, skipPast, skipTo_shift, drop_shift]

end Cursor

/-! ### Start tags -/

theorem skipBetween_shift (offset : Nat) (text : List Char) :
    skipBetween (offset + d) text = (skipBetween offset text).shift d := by
  fun_induction skipBetween offset text with
  | case1 => rfl
  | case2 => rfl
  | case3 offset c rest hne hskip ih =>
    rw [skipBetween, if_pos hskip, Nat.add_right_comm, ih]
    exact hne
  | case4 offset c rest hne hstop =>
    rw [skipBetween, if_neg hstop]
    · rfl
    · exact hne

theorem valueAt_shift (cursor : Cursor) :
    valueAt (cursor.shift d) =
      ((valueAt cursor).1.map (·.mapPlaces (· + d)), (valueAt cursor).2.shift d) := by
  simp only [valueAt, Cursor.skipWhile_shift, Cursor.shift_rest, Cursor.drop_shift,
    Cursor.skipPast_shift]
  split
  · rfl
  · split <;> rfl

theorem attributeAt_shift (first : Char) (cursor : Cursor) :
    attributeAt first (cursor.shift d) =
      ((attributeAt first cursor).1.mapPlaces (· + d), (attributeAt first cursor).2.shift d) := by
  simp only [attributeAt, Cursor.skipWhile_shift, Cursor.shift_rest, Cursor.drop_shift]
  split
  · rw [valueAt_shift]
    rfl
  · rfl

theorem attributesAt_shift (cursor : Cursor) :
    attributesAt (cursor.shift d) =
      ((attributesAt cursor).1.map (·.mapPlaces (· + d)), (attributesAt cursor).2.shift d) := by
  fun_induction attributesAt cursor with
  -- the text ends
  | case1 cursor here h =>
    have hshift : skipBetween (cursor.offset + d) cursor.rest = ⟨here.offset + d, []⟩ := by
      rw [skipBetween_shift, ← h]
      rfl
    rw [attributesAt_of_nil hshift, ← h]
    rfl
  -- the tag ends with a bracket
  | case2 cursor here rest h =>
    have hshift : skipBetween (cursor.offset + d) cursor.rest = ⟨here.offset + d, '>' :: rest⟩ := by
      rw [skipBetween_shift, ← h]
      rfl
    rw [attributesAt_of_gt hshift, Cursor.drop, h, Nat.add_right_comm]
    rfl
  -- the tag ends with a slash and a bracket
  | case3 cursor here rest h =>
    have hslash : skipBetween cursor.offset cursor.rest = ⟨here.offset, '/' :: rest⟩ := by
      rw [← h]
    obtain ⟨rest, rfl⟩ := skipBetween_slash hslash
    have hshift : skipBetween (cursor.offset + d) cursor.rest =
        ⟨here.offset + d, '/' :: '>' :: rest⟩ := by
      rw [skipBetween_shift, ← h]
      rfl
    rw [attributesAt_of_slash hshift, Cursor.drop, h, Nat.add_right_comm]
    rfl
  -- an attribute, and those behind it
  | case4 cursor here first rest hgt hslash h found more after hmore ih =>
    have hshift : skipBetween (cursor.offset + d) cursor.rest =
        ⟨here.offset + d, first :: rest⟩ := by
      rw [skipBetween_shift, ← h]
      rfl
    have hhere : (Cursor.mk (here.offset + d) (first :: rest)) = here.shift d := by rw [← h]; rfl
    rw [attributesAt_of_cons hshift hgt hslash, hhere, attributeAt_shift]
    rw [hmore] at ih
    rw [ih]
    rfl

namespace TagSpan

theorem ofStartTag_shift (start : Nat) (text : List Char) :
    ofStartTag (start + d) text =
      ((ofStartTag start text).1.mapPlaces (· + d), (ofStartTag start text).2.shift d) := by
  have hname : Cursor.mk (start + d + 1) text = (Cursor.mk (start + 1) text).shift d := by
    rw [Cursor.shift, Nat.add_right_comm]
  simp only [ofStartTag, hname, Cursor.drop_shift, attributesAt_shift]
  rfl

end TagSpan

/-! ### Marks -/

theorem skipRawText_shift (name : String) (cursor : Cursor) :
    skipRawText name (cursor.shift d) = (skipRawText name cursor).shift d := by
  rw [skipRawText, skipRawText, Cursor.skipTo_shift]
  split <;> rfl

namespace Mark

theorem ofStartTag_shift (start : Nat) (text : List Char) :
    ofStartTag (start + d) text =
      ((ofStartTag start text).1.mapPlaces (· + d), (ofStartTag start text).2.shift d) := by
  simp only [ofStartTag, TagSpan.ofStartTag_shift, Cursor.shift_rest, skipRawText_shift,
    TagSpan.mapPlaces_name, ← apply_ite (Cursor.shift d)]
  rfl

theorem ofEndTag_shift (start : Nat) (text : List Char) :
    ofEndTag (start + d) text =
      ((ofEndTag start text).1.map (·.mapPlaces (· + d)), (ofEndTag start text).2.shift d) := by
  have hname : Cursor.mk (start + d + 2) text = (Cursor.mk (start + 2) text).shift d := by
    rw [Cursor.shift, Nat.add_right_comm]
  simp only [ofEndTag, hname, Cursor.drop_shift, Cursor.skipPast_shift, Cursor.shift_offset]
  split <;> rfl

theorem next_shift (cursor : Cursor) :
    next (cursor.shift d) =
      ((next cursor).1.map (·.mapPlaces (· + d)), (next cursor).2.shift d) := by
  obtain ⟨offset, rest⟩ := cursor
  have hpast (word : List Char) (n : Nat) (text : List Char) :
      (Cursor.mk (offset + d + n) text).skipPast word =
        ((Cursor.mk (offset + n) text).skipPast word).shift d := by
    rw [← Cursor.skipPast_shift, Cursor.shift, Nat.add_right_comm]
  unfold next
  dsimp only [Cursor.shift_offset, Cursor.shift_rest]
  split
  · rfl
  · rw [hpast]
    rfl
  · rw [hpast]
    rfl
  · rw [hpast]
    rfl
  · exact ofEndTag_shift offset _
  · rw [ofStartTag_shift]
    split
    · rfl
    · rw [Cursor.shift, Nat.add_right_comm]
      rfl
  · rw [Cursor.shift, Nat.add_right_comm]
    rfl

/-- The tags of a text that stands some bytes further on. -/
theorem scan_shift (cursor : Cursor) :
    scan (cursor.shift d) = (scan cursor).map (·.mapPlaces (· + d)) := by
  fun_induction scan cursor with
  | case1 cursor h =>
    rw [scan, dif_pos (show (cursor.shift d).rest = [] from h)]
    rfl
  | case2 cursor h found ih =>
    rw [scan, dif_neg (show ¬(cursor.shift d).rest = [] from h), next_shift]
    dsimp only
    rw [ih, List.map_append, Option.toList_map]

end Mark

/-! ### Ways of moving places that agree -/

variable {f g : Nat → Nat}

theorem AttributesIn.mapPlaces_congr {first last : Nat} {attributes : List AttributeSpan}
    (h : AttributesIn text first attributes last)
    (hfg : ∀ place, first ≤ place → place ≤ last → f place = g place) :
    attributes.map (·.mapPlaces f) = attributes.map (·.mapPlaces g) := by
  refine List.map_congr_left fun entry hmem => ?_
  rw [AttributeSpan.mapPlaces, AttributeSpan.mapPlaces]
  congr 1
  refine Option.map_congr fun value hvalue => ?_
  obtain ⟨hstart, hstop, hfits⟩ := h.value_mem entry hmem value hvalue
  have hle := (fits_iff_isBoundary.1 hfits).1
  rw [Extent.mapPlaces, Extent.mapPlaces, hfg _ hstart (hle.trans hstop),
    hfg _ (hstart.trans hle) hstop]

/-- The places of a span that stands in a text lie between its start and its end. -/
theorem TagSpan.StandsIn.mapPlaces_congr {span : TagSpan} (h : span.StandsIn text)
    (hfg : ∀ place, span.start ≤ place → place ≤ span.stop → f place = g place) :
    span.mapPlaces f = span.mapPlaces g := by
  have hname := h.start_lt_nameEnd
  have htag := h.nameEnd_le_startTagEnd
  have hstop := h.startTagEnd_le_stop
  have hattributes := h.attributes_in.mapPlaces_congr (f := f) (g := g)
    fun place hle hle' => hfg place (by omega) (by omega)
  rw [mapPlaces, mapPlaces, hattributes, hfg span.start (by omega) (by omega),
    hfg span.nameEnd (by omega) (by omega), hfg span.startTagEnd (by omega) (by omega),
    hfg span.stop (by omega) (by omega)]

theorem Mark.StandsIn.mapPlaces_congr {mark : Mark} (h : mark.StandsIn text)
    (hfg : ∀ place, mark.start ≤ place → place ≤ mark.stop → f place = g place) :
    mark.mapPlaces f = mark.mapPlaces g := by
  cases mark with
  | opening span hasContent =>
    have hspan := h.1.mapPlaces_congr fun place hle hle' => hfg place hle (hle'.trans h.2.le)
    rw [Mark.mapPlaces, Mark.mapPlaces, hspan]
  | closing name extent =>
    have hle := (fits_iff_isBoundary.1 h.1).1
    rw [Mark.mapPlaces, Mark.mapPlaces, Extent.mapPlaces, Extent.mapPlaces,
      hfg extent.start le_rfl hle, hfg extent.stop hle le_rfl]

@[simp]
theorem TagSpan.mapPlaces_id (span : TagSpan) : span.mapPlaces (fun place => place) = span := by
  simp [mapPlaces, AttributeSpan.mapPlaces, Extent.mapPlaces]

@[simp]
theorem Mark.mapPlaces_id (mark : Mark) : mark.mapPlaces (fun place => place) = mark := by
  cases mark <;> simp [mapPlaces, Extent.mapPlaces]

end Span

end ElementLint
