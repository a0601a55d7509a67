import ElementLint.Document.Basic
import ElementLint.Proofs.Text.Lines
import ElementLint.Warning.Underline

/-!
# Underlined ranges

A warning about a range of a document shows the line that the range starts on, without its end, and
below it a mark under exactly the columns of the line that lie in the range. If no column does, the
mark is one column wide and stands behind the part of the line before the range
(`Warning.underline_rangeOf`). This holds for ranges that go on over several lines, start in a
line's end or stand behind the last line feed.
-/

namespace ElementLint

open Text

/-- What two stretches of a text have in common. -/
def Extent.meet (extent other : Extent) : Extent :=
  ⟨max extent.start other.start, min extent.stop other.stop⟩

namespace Text

variable {text before full rest cut : List Char} {offsets : Extent}

/-- The line that a stretch of a text starts on, with its end except for the line feed. The stretch
ends on the line as well, or behind it. -/
theorem exists_line_of_fits (h : offsets.fits text = true) :
    ∃ before full rest cut, text = before ++ (full ++ rest) ∧ EndsLine before ∧ '\n' ∉ full ∧
      (rest = [] ∨ ∃ after, rest = '\n' :: after) ∧ cut <+: full ∧
      offsets.start = byteSize (before ++ cut) ∧
      ((∃ upto, upto <+: full ∧ offsets.stop = byteSize (before ++ upto)) ∨
        byteSize (before ++ full) < offsets.stop) := by
  obtain ⟨upto, part, behind, rfl, hstart, hstop⟩ := fits_iff.1 h
  obtain ⟨before, cut, rfl, hbefore, hcut⟩ := exists_endsLine_append upto
  by_cases hpart : '\n' ∈ part
  · -- the stretch passes the end of its first line
    obtain ⟨tail, later, rfl, htail⟩ := List.eq_append_cons_of_mem hpart
    refine ⟨before, cut ++ tail, '\n' :: (later ++ behind), cut, by simp, hbefore,
      by simp [hcut, htail], .inr ⟨_, rfl⟩, List.prefix_append _ _, hstart, .inr ?_⟩
    simp only [hstop, byteSize_append, byteSize_cons, utf8Size_lineFeed]
    omega
  · by_cases hbehind : '\n' ∈ behind
    · obtain ⟨tail, later, rfl, htail⟩ := List.eq_append_cons_of_mem hbehind
      refine ⟨before, cut ++ part ++ tail, '\n' :: later, cut, by simp, hbefore,
        by simp [hcut, hpart, htail], .inr ⟨_, rfl⟩, ?_, hstart, .inl ⟨cut ++ part, ?_, ?_⟩⟩
      · rw [List.append_assoc]
        exact List.prefix_append _ _
      · exact List.prefix_append _ _
      · rw [hstop, ← List.append_assoc, byteSize_append (before ++ cut)]
    · refine ⟨before, cut ++ part ++ behind, [], cut, by simp, hbefore,
        by simp [hcut, hpart, hbehind], .inl rfl, ?_, hstart, .inl ⟨cut ++ part, ?_, ?_⟩⟩
      · rw [List.append_assoc]
        exact List.prefix_append _ _
      · exact List.prefix_append _ _
      · rw [hstop, ← List.append_assoc, byteSize_append (before ++ cut)]

variable (hbefore : EndsLine before) (hfull : '\n' ∉ full)
include hbefore hfull

/-- The position of an offset on a line. -/
theorem ofOffset_of_prefix (hcut : cut <+: full) (rest : List Char) :
    Position.ofOffset (before ++ (full ++ rest)) (byteSize (before ++ cut)) =
      ⟨before.count '\n', cut.length⟩ := by
  obtain ⟨behind, rfl⟩ := hcut
  rw [List.append_assoc]
  exact SourceMap.position_append hbefore (fun hmem => hfull (List.mem_append_left _ hmem)) _

omit hbefore hfull in
/-- An offset behind a line has a later position. -/
theorem line_ofOffset_ne (hrest : rest = [] ∨ ∃ after, rest = '\n' :: after)
    (h : offsets.fits (before ++ (full ++ rest)) = true)
    (hlt : byteSize (before ++ full) < offsets.stop) :
    (Position.ofOffset (before ++ (full ++ rest)) offsets.stop).line ≠ before.count '\n' := by
  have hle := (fits_iff_isBoundary.1 h).2.1
  rcases hrest with rfl | ⟨after, rfl⟩
  · rw [List.append_nil] at hle
    exact absurd hle (Nat.not_le.2 hlt)
  · -- the line feed stands before the offset
    have hlength : (utf8 (before ++ full ++ ['\n'])).length ≤ offsets.stop := by
      rw [length_utf8, byteSize_append]
      exact hlt
    have hprefix : utf8 (before ++ full ++ ['\n']) <+:
        (utf8 (before ++ (full ++ '\n' :: after))).take offsets.stop := by
      refine List.prefix_take_iff.2 ⟨?_, hlength⟩
      have htext : before ++ (full ++ '\n' :: after) = (before ++ full ++ ['\n']) ++ after := by
        simp
      rw [htext, utf8_append (before ++ full ++ ['\n'])]
      exact List.prefix_append _ _
    have hcount := hprefix.sublist.count_le 0x0A
    rw [count_utf8, List.count_append, List.count_append, List.count_singleton_self] at hcount
    rw [Position.ofOffset, SourceMap.line_position]
    omega

end Text

namespace Warning

variable {text before line ending after : List Char} {offsets : Extent}

/-- The line that a stretch of a text starts on, and the columns between which a mark lies under
it: the second one may be any behind the line if the stretch ends behind it. -/
theorem exists_columns (h : offsets.fits text = true) :
    ∃ before line ending after low high, LineAt text offsets.start before line ending after ∧
      min offsets.start (byteSize before + byteSize line) =
        byteSize before + byteSize (line.take low) ∧
      min offsets.stop (byteSize before + byteSize line) =
        byteSize before + byteSize (line.take high) ∧
      Position.ofOffset text offsets.start = ⟨before.count '\n', low⟩ ∧
      (Position.ofOffset text offsets.stop = ⟨before.count '\n', high⟩ ∨
        (Position.ofOffset text offsets.stop).line ≠ before.count '\n' ∧ high = line.length) := by
  obtain ⟨before, full, rest, cut, rfl, hbefore, hfull, hrest, hcut, hstart, hstop⟩ :=
    exists_line_of_fits h
  obtain ⟨line, ending, after, hline, hlineAt⟩ := exists_lineAt hbefore hfull hrest
  have hmin : ∀ upto, upto <+: full →
      min (byteSize (before ++ upto)) (byteSize before + byteSize line) =
        byteSize before + byteSize (line.take upto.length) := by
    intro upto hupto
    rw [byteSize_append, Nat.add_min_add_left, min_byteSize_eq hupto hline]
  have hposition := ofOffset_of_prefix hbefore hfull hcut rest
  rcases hstop with ⟨upto, hupto, hstop⟩ | hstop
  · refine ⟨before, line, ending, after, cut.length, upto.length, hstart ▸ hlineAt cut hcut,
      hstart ▸ hmin cut hcut, hstop ▸ hmin upto hupto, hstart ▸ hposition, .inl ?_⟩
    rw [hstop]
    exact ofOffset_of_prefix hbefore hfull hupto rest
  · refine ⟨before, line, ending, after, cut.length, line.length, hstart ▸ hlineAt cut hcut,
      hstart ▸ hmin cut hcut, ?_, hstart ▸ hposition,
      .inr ⟨line_ofOffset_ne hrest h hstop, rfl⟩⟩
    have hle := byteSize_mono hline
    rw [byteSize_append] at hstop
    rw [List.take_length]
    omega

/-- A mark under a line that starts at the byte `start`. It lies under the columns in a stretch of
the text, which are the part of the stretch that lies on the line. If there are none, it is one
column wide, behind the characters of the line that come before the stretch. -/
structure Marks (text : List Char) (offsets : Extent) (start : Nat) (line : List Char)
    (first width : Nat) : Prop where
  columns_eq : columnsIn offsets start line ≠ [] →
    columnsIn offsets start line = List.range' first width
  slice?_eq : columnsIn offsets start line ≠ [] →
    slice? text (offsets.meet ⟨start, start + byteSize line⟩) = some ((line.drop first).take width)
  width_eq : columnsIn offsets start line = [] → width = 1
  first_eq : columnsIn offsets start line = [] →
    first = (columnsIn ⟨start, offsets.start⟩ start line).length

/-- The part of a line between two columns is cut out at the places of these columns. -/
theorem slice?_columns (htext : text = before ++ (line ++ after)) (low width : Nat) :
    slice? text ⟨byteSize before + byteSize (line.take low),
      byteSize before + byteSize (line.take (low + width))⟩ =
        some ((line.drop low).take width) := by
  have hparts : line =
      line.take low ++ ((line.drop low).take width ++ line.drop (low + width)) := by
    rw [← List.drop_drop, List.take_append_drop, List.take_append_drop]
  refine slice?_eq_some_iff.2
    ⟨before ++ line.take low, line.drop (low + width) ++ after, ?_, ?_, ?_⟩
  · conv_lhs => rw [htext, hparts]
    simp only [List.append_assoc]
  · rw [byteSize_append]
  · rw [byteSize_append, List.take_add, byteSize_append, Nat.add_assoc]

/-- The mark under the columns between two bounds, at least one column wide. -/
theorem marks_of_columns {low high : Nat}
    (hline : LineAt text offsets.start before line ending after)
    (hlow : min offsets.start (byteSize before + byteSize line) =
      byteSize before + byteSize (line.take low))
    (hhigh : min offsets.stop (byteSize before + byteSize line) =
      byteSize before + byteSize (line.take high)) :
    Marks text offsets (byteSize before) line (min low line.length)
      (max (min high line.length - min low line.length) 1) := by
  have hcolumns := columnsIn_eq_range' hlow hhigh
  have hempty : columnsIn offsets (byteSize before) line = [] ↔
      min high line.length - min low line.length = 0 := by
    rw [hcolumns, List.range'_eq_nil_iff]
  refine ⟨fun hne => ?_, fun hne => ?_, fun hnil => ?_, fun hnil => ?_⟩
  · have hpos := mt hempty.2 hne
    rw [hcolumns, Nat.max_eq_left (by omega)]
  · -- the stretch starts on the line, before its end
    have hpos := mt hempty.2 hne
    have hlt : low < line.length := by omega
    have hinside : byteSize (line.take low) < byteSize (line.take line.length) :=
      (byteSize_take_lt_iff hlt).2 hlt
    have hmeet : offsets.meet ⟨byteSize before, byteSize before + byteSize line⟩ =
        ⟨byteSize before + byteSize (line.take low),
          byteSize before + byteSize (line.take high)⟩ := by
      rw [List.take_length] at hinside
      rw [Extent.meet, Nat.max_eq_left hline.start_le, hhigh, ← hlow, Nat.min_eq_left (by omega)]
    have hwidth : line.take high = line.take (low + (min high line.length - low)) :=
      List.take_eq_take_iff.2 (by omega)
    rw [Nat.max_eq_left (by omega), Nat.min_eq_left hlt.le, hmeet, hwidth]
    exact slice?_columns hline.text_eq low _
  · have hzero := hempty.1 hnil
    omega
  · have hbefore : columnsIn ⟨byteSize before, offsets.start⟩ (byteSize before) line =
        List.range' (min 0 line.length) (min low line.length - min 0 line.length) :=
      columnsIn_eq_range' (by simp) hlow
    rw [hbefore, List.length_range']
    omega

/-- A text shows a stretch of another text: below an empty line it has the line of the other text
that the stretch starts on, and below that a mark under the part of the stretch on the line. -/
def IsUnderlined (text : List Char) (offsets : Extent) (shown : String) : Prop :=
  ∃ before line ending after first width,
    LineAt text offsets.start before line ending after ∧
      Marks text offsets (byteSize before) line first width ∧
      shown = String.ofList
        ('\n' :: line ++ '\n' :: List.replicate first ' ' ++ List.replicate width '~')

/-- A warning about a range of a document is shown with the line that the range starts on and a mark
under the part of the range on this line. -/
theorem underline_rangeOf (document : Document) (warning : Warning) {offsets : Extent}
    (hfits : offsets.fits document.contents.toList = true) :
    IsUnderlined document.contents.toList offsets
      ({ warning with range := document.rangeOf offsets }.underline document.contents) := by
  obtain ⟨before, line, ending, after, low, high, hline, hlow, hhigh, hstart, hstop⟩ :=
    exists_columns hfits
  refine ⟨before, line, ending, after, _, _, hline, marks_of_columns hline hlow hhigh, ?_⟩
  have hcolumn : (if (Position.ofOffset document.contents.toList offsets.stop).line =
        before.count '\n' then
      min (Position.ofOffset document.contents.toList offsets.stop).column line.length
      else line.length) = min high line.length := by
    rcases hstop with hstop | ⟨hne, rfl⟩
    · rw [hstop, if_pos rfl]
    · rw [if_neg hne, Nat.min_self]
  simp only [underline, Document.rangeOf, hstart, hline.getD_lines, hcolumn]

/-- A range that starts at the second character of a line and ends on the next line. The line ends
with a carriage return and a line feed, and a line with a character of two bytes stands before it.
-/
theorem underline_rangeOf_several_lines :
    let document : Document := ⟨"a.html", "é\nbc\r\nd", #[], #[]⟩
    let warning : Warning := ⟨"code", "message", .warning, document.rangeOf ⟨4, 8⟩, none⟩
    Extent.fits ⟨4, 8⟩ document.contents.toList = true ∧
      IsUnderlined document.contents.toList ⟨4, 8⟩ (warning.underline document.contents) ∧
      warning.underline document.contents = "\nbc\n ~" := by
  intro document warning
  have hfits : Extent.fits ⟨4, 8⟩ document.contents.toList = true := by decide +kernel
  exact ⟨hfits, underline_rangeOf document warning hfits, by decide +kernel⟩

end Warning

end ElementLint
