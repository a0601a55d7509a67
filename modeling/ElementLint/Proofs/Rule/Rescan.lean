import ElementLint.Proofs.Rule.Indentation
import ElementLint.Proofs.Span.Insertion
import ElementLint.Rule.ContentToSlotUsages

/-!
# The scan after a fix

The fixes of the rules insert an attribute behind the name of a start tag, or a comment and a style
behind a start tag. Neither disturbs the scan of the text (`Span.TagSpan.scan_fixes`): the attribute
is read as the first one of its tag, the style is one element more, and all else is found again.
-/

namespace ElementLint

open ElementLint.Span Text

variable {indent : List Char}

namespace ContentToSlotUsages

/-- The attribute that puts an element into a slot. -/
def slotEntry (slot : NamedSlot) (h : '"' ∉ slot.name.toList) : Written.Attribute where
  name := ⟨"slot".toList, by decide, by decide⟩
  value := some ⟨'"', slot.name.toList, .inl rfl, h⟩

theorem write_slotEntry (slot : NamedSlot) (h : '"' ∉ slot.name.toList) :
    (slotEntry slot h).write = (slotAttribute slot).toList := by
  simp [slotEntry, Written.Attribute.write, Written.Value.write, slotAttribute]

/-- The span of an element that the attribute puts into a slot. -/
def slottedSpan (slot : NamedSlot) (span : TagSpan) : TagSpan :=
  let size := byteSize (slotAttribute slot).toList
  { span.mapPlaces (moved span.nameEnd size) with
    nameEnd := span.nameEnd
    attributes :=
      ⟨"slot", some ⟨span.nameEnd + byteSize " slot=".toList, span.nameEnd + size⟩⟩ ::
        span.attributes.map (·.mapPlaces (moved span.nameEnd size)) }

theorem insertAttribute_slotEntry (slot : NamedSlot) (h : '"' ∉ slot.name.toList) (span : TagSpan) :
    span.insertAttribute (slotEntry slot h) span.nameEnd = slottedSpan slot span := by
  have hspan : (slotEntry slot h).span span.nameEnd =
      ⟨"slot", some ⟨span.nameEnd + byteSize " slot=".toList,
        span.nameEnd + byteSize (slotAttribute slot).toList⟩⟩ := by
    rw [← write_slotEntry slot h]
    simp [slotEntry, Written.Attribute.span, Written.Attribute.write, Nat.add_assoc]
  rw [TagSpan.insertAttribute, hspan, write_slotEntry]
  rfl

end ContentToSlotUsages

namespace PaperButtonStyle

/-- The text of the comment in the inserted style. -/
def comment : List Char :=
  " Remove this to enable the vertical alignment of button content ".toList

/-- The text of the inserted style element. -/
def rules : List Char :=
  "\n  paper-button \x7b\n    display: inline-block;\n  \x7d\n".toList

theorem snippet_eq : snippet.toList =
    Written.writeComment comment ++ '\n' :: ("<style>".toList ++ (rules ++ "</style>".toList)) := by
  decide +kernel

theorem indented_snippet (indent : List Char) :
    indented indent snippet.toList =
      ('\n' :: indent) ++ (Written.writeComment comment ++ (('\n' :: indent) ++
        ("<style>".toList ++ (indentLines indent rules ++ "</style>".toList)))) := by
  have hcomment : '\n' ∉ Written.writeComment comment := by decide +kernel
  have hopen : '\n' ∉ "<style>".toList := by decide
  have hclose : '\n' ∉ "</style>".toList := by decide
  rw [snippet_eq, indented, ← indentLines, indentLines_append, indentLines_of_not_mem hcomment,
    indentLines_cons, indentLines_append, indentLines_append, indentLines_of_not_mem hopen,
    indentLines_of_not_mem hclose]

/-- The start tag of a style is read up to its end. -/
theorem ofStartTag_style (place : Nat) (rest : List Char) :
    TagSpan.ofStartTag place ("style>".toList ++ rest) =
      (⟨"style", place, place + 6, place + 7, place + 7, []⟩, ⟨place + 7, rest⟩) := by
  have hname : Cursor.skipFrom inTagName (place + 1) ("style>".toList ++ rest) =
      ⟨place + 6, '>' :: rest⟩ := rfl
  have hbetween : skipBetween (place + 6) ('>' :: rest) = ⟨place + 6, '>' :: rest⟩ := rfl
  have hattributes : attributesAt ⟨place + 6, '>' :: rest⟩ = ([], ⟨place + 7, rest⟩) :=
    attributesAt_of_gt hbetween
  rw [TagSpan.ofStartTag_eq hname, hattributes]
  rfl

/-- The text of a style ends at its end tag. -/
theorem skipRawText_style {body : List Char} (hbody : '<' ∉ body) (place : Nat) (rest : List Char) :
    skipRawText "style" ⟨place, body ++ ("</style>".toList ++ rest)⟩ =
      ⟨place + byteSize body, "</style>".toList ++ rest⟩ := by
  have hraw : isRawText "style" = true := by decide
  rw [skipRawText, if_pos hraw]
  refine Cursor.seekFrom_append (fun last hlast hne => ?_) ?_
  · -- an end tag starts with a character that the text does not hold
    rw [← Bool.not_eq_true, startsWithEndTag_iff]
    intro hstarts
    obtain ⟨c, more, rfl⟩ := List.exists_cons_of_ne_nil hne
    rw [List.cons_append, lower, List.map_cons, List.cons_prefix_cons] at hstarts
    have hc : c = '<' := eq_of_toLower_eq hstarts.1.symm rfl
    exact hbody (hlast.subset (hc ▸ List.mem_cons_self))
  · rw [startsWithEndTag_iff, lower, List.map_append]
    exact ⟨'>' :: rest.map Char.toLower, rfl⟩

/-- A style is found with its end tag. -/
theorem scan_style {body : List Char} (hbody : '<' ∉ body) (place : Nat) (rest : List Char) :
    Mark.scan ⟨place, "<style>".toList ++ (body ++ ("</style>".toList ++ rest))⟩ =
      .opening ⟨"style", place, place + 6, place + 7, place + 7, []⟩ true ::
        .closing "style" ⟨place + 7 + byteSize body, place + 7 + byteSize body + 8⟩ ::
          Mark.scan ⟨place + 7 + byteSize body + 8, rest⟩ := by
  have hopen : Mark.ofStartTag place ("style>".toList ++ (body ++ ("</style>".toList ++ rest))) =
      (.opening ⟨"style", place, place + 6, place + 7, place + 7, []⟩ true,
        ⟨place + 7 + byteSize body, "</style>".toList ++ rest⟩) := by
    have hread := ofStartTag_style place (body ++ ("</style>".toList ++ rest))
    have hclosing : isSelfClosing ("style>".toList ++ (body ++ ("</style>".toList ++ rest)))
        (body ++ ("</style>".toList ++ rest)) = false := isSelfClosing_append _ _
    rw [Mark.ofStartTag_eq hread (congrArg (!isVoid "style" && !·) hclosing)]
    exact Prod.ext rfl (skipRawText_style hbody (place + 7) rest)
  have hfirst : Mark.next ⟨place, "<style>".toList ++ (body ++ ("</style>".toList ++ rest))⟩ =
      (some (.opening ⟨"style", place, place + 6, place + 7, place + 7, []⟩ true),
        ⟨place + 7 + byteSize body, "</style>".toList ++ rest⟩) := by
    refine (Mark.next_of_isAlpha (c := 's') rfl).trans ?_
    exact Prod.ext (congrArg (some ·.1) hopen) (congrArg (·.2) hopen)
  have hlast : Mark.next ⟨place + 7 + byteSize body, "</style>".toList ++ rest⟩ =
      (some (.closing "style" ⟨place + 7 + byteSize body, place + 7 + byteSize body + 8⟩),
        ⟨place + 7 + byteSize body + 8, rest⟩) := by
    rfl
  rw [Mark.scan_eq_append (List.cons_ne_nil _ _) hfirst,
    Mark.scan_eq_append (List.cons_ne_nil _ _) hlast]
  rfl

/-- The span of the style, if it is inserted at a place. -/
def styleSpan (indent : List Char) (place : Nat) : TagSpan :=
  let line := '\n' :: indent
  let start := place + byteSize (line ++ (Written.writeComment comment ++ line))
  { name := "style"
    start
    nameEnd := start + byteSize "<style".toList
    startTagEnd := start + byteSize "<style>".toList
    stop := place + byteSize (indented indent snippet.toList)
    attributes := [] }

/-- The tags of the style, if it is inserted at a place. -/
def styleMarks (indent : List Char) (place : Nat) : List Mark :=
  let style := styleSpan indent place
  let stop := place + byteSize (indented indent snippet.toList)
  [.opening { style with stop := style.startTagEnd } true,
    .closing "style" ⟨stop - byteSize "</style>".toList, stop⟩]

/-- Neither the indentation nor the text of the style looks like a tag. -/
theorem not_mem_indentLines (hindent : ∀ c ∈ indent, c = ' ' ∨ c = '\t') :
    '<' ∉ '\n' :: indent ∧ '<' ∉ indentLines indent rules := by
  have hline : '<' ∉ '\n' :: indent := by
    intro hmem
    rcases List.mem_cons.1 hmem with heq | hmem
    · exact absurd heq (by decide)
    · rcases hindent '<' hmem with heq | heq <;> exact absurd heq (by decide)
  refine ⟨hline, fun hmem => ?_⟩
  obtain ⟨c, hc, hmem⟩ := List.mem_flatMap.1 hmem
  split at hmem
  · exact hline hmem
  · rw [List.mem_singleton] at hmem
    have hrules : '<' ∉ rules := by decide +kernel
    exact hrules (hmem ▸ hc)

/-- The scan finds the tags of the style and goes on behind it. -/
theorem scan_indented (hindent : ∀ c ∈ indent, c = ' ' ∨ c = '\t') (place : Nat)
    (rest : List Char) :
    Mark.scan ⟨place, indented indent snippet.toList ++ rest⟩ =
      styleMarks indent place ++
        Mark.scan ⟨place + byteSize (indented indent snippet.toList), rest⟩ := by
  obtain ⟨hline, hrules⟩ := not_mem_indentLines hindent
  have hcomment : ¬ ['-', '-', '>'] <:+: comment := by decide +kernel
  have hsize : byteSize (indented indent snippet.toList) = byteSize ('\n' :: indent) +
      (byteSize (Written.writeComment comment) + (byteSize ('\n' :: indent) +
        (7 + (byteSize (indentLines indent rules) + 8)))) := by
    rw [indented_snippet]
    simp only [byteSize_append]
    rfl
  -- the places of the tags, added up part by part
  have hstart : place + byteSize (('\n' :: indent) ++ (Written.writeComment comment ++
      ('\n' :: indent))) = place + byteSize ('\n' :: indent) +
        byteSize (Written.writeComment comment) + byteSize ('\n' :: indent) := by
    rw [byteSize_append, byteSize_append, Nat.add_assoc, Nat.add_assoc]
  have hstop : place + byteSize (indented indent snippet.toList) =
      place + byteSize ('\n' :: indent) + byteSize (Written.writeComment comment) +
        byteSize ('\n' :: indent) + 7 + byteSize (indentLines indent rules) + 8 := by
    rw [hsize]
    omega
  have hend : byteSize "</style>".toList = 8 := rfl
  rw [styleMarks, styleSpan, hstart, hstop, hend, Nat.add_sub_cancel, indented_snippet,
    List.append_assoc, Written.scan_text hline, List.append_assoc, Written.scan_comment hcomment,
    List.append_assoc, Written.scan_text hline, List.append_assoc, List.append_assoc,
    scan_style hrules]
  rfl

/-- The style is one element more. -/
theorem foldl_add_styleMarks (indent : List Char) (place : Nat) (nesting : Nesting) :
    (styleMarks indent place).foldl Nesting.add nesting =
      ⟨nesting.spans ++ [styleSpan indent place].toArray, nesting.opened⟩ := by
  obtain ⟨spans, opened⟩ := nesting
  have himplied : impliedEnd "style" = none := by decide
  have hopen : ∀ style : TagSpan, style.name = "style" →
      Nesting.add ⟨spans, opened⟩ (.opening style true) =
        ⟨spans ++ [style].toArray, ⟨spans.size, "style"⟩ :: opened⟩ := by
    intro style hname
    simp [Nesting.add, Nesting.enter, Nesting.closeImplied, hname, himplied]
  rw [styleMarks, List.foldl_cons, hopen _ rfl, List.foldl_cons, Written.add_closing]
  rfl

end PaperButtonStyle

/-- The fixes of the rules do not disturb the scan of a text. The attribute that puts an element
into a slot is read as the first one of its tag. The style for buttons, which goes behind a start
tag that is closed and whose element has no text for content, is the element after that of the tag;
the tag ends where it did, and so does the element if it is void or closed by a slash. All other
places at or behind the insertion are moved by its size. -/
theorem Span.TagSpan.scan_fixes {text : List Char} {before after : List TagSpan} {span : TagSpan}
    (h : (TagSpan.scan text).toList = before ++ span :: after) :
    (∀ slot : ContentToSlotUsages.NamedSlot, '"' ∉ slot.name.toList →
      let inserted := (ContentToSlotUsages.slotAttribute slot).toList
      let place := moved span.nameEnd (byteSize inserted)
      ∃ changed, splice? text ⟨span.nameEnd, span.nameEnd⟩ inserted = some changed ∧
        (TagSpan.scan changed).toList =
          before.map (·.mapPlaces place) ++
            ContentToSlotUsages.slottedSpan slot span :: after.map (·.mapPlaces place)) ∧
    (isRawText span.name = false → span.IsClosed text →
      ∀ indent : List Char, (∀ c ∈ indent, c = ' ' ∨ c = '\t') →
        let inserted := PaperButtonStyle.indented indent PaperButtonStyle.snippet.toList
        let place := moved span.startTagEnd (byteSize inserted)
        ∃ changed, splice? text ⟨span.startTagEnd, span.startTagEnd⟩ inserted = some changed ∧
          (TagSpan.scan changed).toList =
            before.map (·.mapPlaces place) ++
              span.insertContent (!isVoid span.name && !span.endsInSlash text) span.startTagEnd
                (byteSize inserted) ::
                PaperButtonStyle.styleSpan indent span.startTagEnd ::
                  after.map (·.mapPlaces place)) := by
  refine ⟨fun slot hslot => ?_, fun hraw hclosed indent hindent => ?_⟩
  · have hvalue : (ContentToSlotUsages.slotEntry slot hslot).value = some _ := rfl
    have hentry := TagSpan.scan_insertAttribute hvalue h
    rwa [ContentToSlotUsages.insertAttribute_slotEntry, ContentToSlotUsages.write_slotEntry]
      at hentry
  · exact TagSpan.scan_insertContent h hraw hclosed
      (PaperButtonStyle.scan_indented hindent span.startTagEnd)
      (PaperButtonStyle.foldl_add_styleMarks indent span.startTagEnd)

/-- A closed tag with a value that holds the character that closes it, followed by a void one. -/
theorem Span.TagSpan.scan_fixes_closed :
    let text := "é<div b='>'><br/>".toList
    let slot : ContentToSlotUsages.NamedSlot := ⟨"s", ⟨[]⟩⟩
    let snippet := PaperButtonStyle.indented ['\t'] PaperButtonStyle.snippet.toList
    TagSpan.scan text =
        #[⟨"div", 2, 6, 13, 18, [⟨"b", some ⟨9, 12⟩⟩]⟩, ⟨"br", 13, 16, 18, 18, []⟩] ∧
      (∃ changed, splice? text ⟨6, 6⟩ (ContentToSlotUsages.slotAttribute slot).toList =
          some changed ∧
        (TagSpan.scan changed).toList =
          [⟨"div", 2, 6, 22, 27, [⟨"slot", some ⟨12, 15⟩⟩, ⟨"b", some ⟨18, 21⟩⟩]⟩,
            ⟨"br", 22, 25, 27, 27, []⟩]) ∧
      (∃ changed, splice? text ⟨13, 13⟩ snippet = some changed ∧
        (TagSpan.scan changed).toList =
          [⟨"div", 2, 6, 13, 161, [⟨"b", some ⟨9, 12⟩⟩]⟩, ⟨"style", 88, 94, 95, 156, []⟩,
            ⟨"br", 156, 159, 161, 161, []⟩]) ∧
      ∃ changed, splice? text ⟨18, 18⟩ snippet = some changed ∧
        (TagSpan.scan changed).toList =
          [⟨"div", 2, 6, 13, 161, [⟨"b", some ⟨9, 12⟩⟩]⟩, ⟨"br", 13, 16, 18, 18, []⟩,
            ⟨"style", 93, 99, 100, 161, []⟩] := by
  intro text slot snippet
  have hscan : TagSpan.scan text =
      #[⟨"div", 2, 6, 13, 18, [⟨"b", some ⟨9, 12⟩⟩]⟩, ⟨"br", 13, 16, 18, 18, []⟩] := by
    decide +kernel
  have hindent : ∀ c ∈ ['\t'], c = ' ' ∨ c = '\t' := by simp
  have hclosed : ∀ span ∈ (TagSpan.scan text).toList, span.IsClosed text := by
    rw [hscan]
    simp only [List.mem_cons, List.not_mem_nil, or_false, forall_eq_or_imp, forall_eq]
    exact ⟨⟨by decide +kernel, by decide⟩, ⟨by decide +kernel, by decide⟩⟩
  obtain ⟨hslot, hstyle⟩ := scan_fixes (congrArg Array.toList hscan : _ = [] ++ _)
  obtain ⟨-, hlast⟩ := scan_fixes (congrArg Array.toList hscan : _ = [_] ++ _)
  rw [hscan] at hclosed
  refine ⟨hscan, ?_, ?_, ?_⟩
  · obtain ⟨changed, hchanged, hspans⟩ := hslot slot (by decide)
    exact ⟨changed, hchanged, hspans.trans (by decide +kernel)⟩
  · obtain ⟨changed, hchanged, hspans⟩ := hstyle (by decide) (hclosed _ (by simp)) ['\t'] hindent
    exact ⟨changed, hchanged, hspans.trans (by decide +kernel)⟩
  · obtain ⟨changed, hchanged, hspans⟩ := hlast (by decide) (hclosed _ (by simp)) ['\t'] hindent
    exact ⟨changed, hchanged, hspans.trans (by decide +kernel)⟩

end ElementLint
