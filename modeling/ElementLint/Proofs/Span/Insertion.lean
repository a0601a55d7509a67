import ElementLint.Proofs.Edits.Substitution
import ElementLint.Proofs.Span.Rescan
import ElementLint.Proofs.Span.Resume
import ElementLint.Proofs.Span.RoundTrip

/-!
# The scan after an insertion

An attribute that is put behind the name of a start tag (`TagSpan.scan_insertAttribute`), and
elements that are put behind a start tag (`TagSpan.scan_insertContent`), do not disturb the scan:
all elements are found again, those behind the insertion as far on as it is long.
-/

namespace ElementLint.Span

open Text Cursor

variable {text : List Char}

/-- Where a place of a text is after an insertion. -/
def moved (start size place : Nat) : Nat :=
  if place < start then place else place + size

theorem moved_of_lt {start size place : Nat} (h : place < start) : moved start size place = place :=
  if_pos h

theorem moved_of_le {start size place : Nat} (h : start ≤ place) :
    moved start size place = place + size :=
  if_neg (Nat.not_lt.2 h)

/-- Tags that stand behind an insertion are moved on. -/
theorem Mark.scan_shift_eq_moved {cursor : Cursor} (h : cursor.StandsIn text) {start : Nat}
    (hle : start ≤ cursor.offset) (size : Nat) :
    scan (cursor.shift size) = (scan cursor).map (·.mapPlaces (moved start size)) := by
  rw [scan_shift]
  refine List.map_congr_left fun mark hmark => ?_
  obtain ⟨hstands, hstart⟩ := standsIn_of_mem_scan h mark hmark
  exact hstands.mapPlaces_congr fun place hplace _ => (moved_of_le (by omega)).symm

/-! ### The start tag of an element -/

/-- The start tag of the element with some number, as the scan of a text comes to it. -/
structure StartTagAt (text : List Char) (k : Nat) (earlier : List Mark) (span : TagSpan)
    (hasContent : Bool) (passed : List Char) (first : Char) (rest : List Char) (cursor : Cursor) :
    Prop where
  isAlpha : first.isAlpha = true
  text_eq : text = passed ++ '<' :: first :: rest
  start_eq : span.start = byteSize passed
  /-- The scan reads the tag and goes on at the cursor. -/
  read : Mark.ofStartTag span.start (first :: rest) = (.opening span hasContent, cursor)
  /-- The tags before it are found whatever follows its first letter. -/
  scan_eq : ∀ other, Mark.scan ⟨0, passed ++ '<' :: first :: other⟩ =
    earlier ++ Mark.scan ⟨span.start, '<' :: first :: other⟩
  size_eq : (earlier.foldl Nesting.add .empty).spans.size = k

namespace StartTagAt

variable {k : Nat} {earlier : List Mark} {span : TagSpan} {hasContent : Bool}
  {passed rest : List Char} {first : Char} {cursor : Cursor}

/-- The scan of a text in which another start tag stands there. -/
theorem scan_of_read (h : StartTagAt text k earlier span hasContent passed first rest cursor)
    {other : List Char} {mark : Mark} {after : Cursor}
    (hread : Mark.ofStartTag span.start (first :: other) = (mark, after)) :
    Mark.scan ⟨0, passed ++ '<' :: first :: other⟩ = earlier ++ mark :: Mark.scan after := by
  rw [h.scan_eq, Mark.scan_eq_append (List.cons_ne_nil _ _) (Mark.next_of_isAlpha h.isAlpha), hread]
  rfl

theorem scan_text (h : StartTagAt text k earlier span hasContent passed first rest cursor) :
    Mark.scan ⟨0, text⟩ = earlier ++ .opening span hasContent :: Mark.scan cursor := by
  have hscan := h.scan_of_read h.read
  rwa [← h.text_eq] at hscan

/-- The scan goes on behind the tag. -/
theorem standsIn (h : StartTagAt text k earlier span hasContent passed first rest cursor) :
    span.StandsIn text ∧ cursor.StandsIn text ∧ span.startTagEnd ≤ cursor.offset := by
  have hstart : (Cursor.mk span.start ('<' :: first :: rest)).StandsIn text :=
    ⟨passed, h.text_eq, by rw [h.start_eq, Nat.zero_add]⟩
  obtain ⟨⟨moved, hmoved⟩, hmark, -, hstop⟩ :=
    Mark.ofStartTag_standsIn rfl hstart (inTagName_of_isAlpha h.isAlpha)
  rw [h.read] at hmoved hmark hstop
  exact ⟨hmark.1, hmoved.standsIn hstart, hstop⟩

/-- What is read of the tag, and where the scan goes on. -/
theorem exists_read (h : StartTagAt text k earlier span hasContent passed first rest cursor) :
    ∃ more, TagSpan.ofStartTag span.start (first :: rest) = (span, ⟨span.startTagEnd, more⟩) ∧
      hasContent = (!isVoid span.name && !isSelfClosing (first :: rest) more) ∧
      cursor = if hasContent then skipRawText span.name ⟨span.startTagEnd, more⟩
        else ⟨span.startTagEnd, more⟩ := by
  cases hfound : TagSpan.ofStartTag span.start (first :: rest) with
  | mk found after =>
  have hread := Mark.ofStartTag_eq hfound rfl
  obtain ⟨hmark, rfl⟩ := Prod.mk.inj (h.read.symm.trans hread)
  obtain ⟨rfl, rfl⟩ := Mark.opening.inj hmark
  have hend : after.offset = span.startTagEnd := by
    have hsnd := congrArg (Cursor.offset ∘ Prod.snd) hfound
    have hfst := congrArg (TagSpan.startTagEnd ∘ Prod.fst) hfound
    exact hsnd.symm.trans hfst
  rw [← hend]
  exact ⟨after.rest, rfl, rfl, rfl⟩

theorem nameEnd_eq (h : StartTagAt text k earlier span hasContent passed first rest cursor) :
    span.nameEnd = byteSize (passed ++ '<' :: (first :: rest).takeWhile inTagName) := by
  obtain ⟨more, hread, -⟩ := h.exists_read
  have hname : Passes ⟨span.start + 1, first :: rest⟩ _ _ :=
    passes_drop_word (List.takeWhile_prefix inTagName)
  have hnameEnd := congrArg (TagSpan.nameEnd ∘ Prod.fst) hread
  rw [← show _ = span.nameEnd from hnameEnd, byteSize_append, byteSize_cons, ← h.start_eq,
    ← Nat.add_assoc]
  exact hname.2

end StartTagAt

/-- Every element of a text has a start tag, from which its span differs in the end only. -/
theorem TagSpan.exists_startTagAt {before after : List TagSpan} {span : TagSpan}
    (h : (TagSpan.scan text).toList = before ++ span :: after) :
    ∃ earlier opened hasContent passed first rest cursor,
      StartTagAt text before.length earlier opened hasContent passed first rest cursor ∧
      span = { opened with stop := span.stop } ∧ (hasContent = false → span = opened) := by
  obtain ⟨earlier, opened, hasContent, later, hmarks, hsize, hspan⟩ := exists_opening h
  obtain ⟨passed, first, rest, hfirst, htext, hstart, hfrom, hother⟩ :=
    Mark.exists_of_scan_eq_append hmarks
  rw [Mark.scan_eq_append (List.cons_ne_nil _ _) (Mark.next_of_isAlpha hfirst)] at hfrom
  obtain ⟨hmark, -⟩ := List.cons.inj hfrom
  rw [Nat.zero_add] at hstart
  exact ⟨earlier, opened, hasContent, passed, first, rest, _,
    ⟨hfirst, htext, hstart, Prod.ext hmark rfl, hother, hsize⟩, hspan⟩

/-! ### Attributes -/

section Attributes

variable {entry : Written.Attribute} {value : Written.Value}

/-- An attribute with a value is read before the others. -/
theorem attributesAt_insert (hvalue : entry.value = some value) (place : Nat) (rest : List Char) :
    attributesAt ⟨place, entry.write ++ rest⟩ =
      (entry.span place ::
          (attributesAt ⟨place, rest⟩).1.map (·.mapPlaces (· + byteSize entry.write)),
        (attributesAt ⟨place, rest⟩).2.shift (byteSize entry.write)) := by
  have hrest : entry.value = none → Written.EndsName rest := fun hnone => by simp [hnone] at hvalue
  obtain ⟨first, more, hwrite, hfirst, hread⟩ := Written.attributeAt_write entry place hrest
  have hbetween := Written.skipBetween_space hfirst place more
  rw [hwrite, attributesAt_of_cons hbetween (Written.ne_of_isNameChar hfirst rfl)
    (Written.ne_of_isNameChar hfirst rfl), hread]
  dsimp only
  rw [show Cursor.mk (place + byteSize entry.write) rest =
    (Cursor.mk place rest).shift (byteSize entry.write) from rfl, attributesAt_shift]

theorem skipFrom_eq_of_takeWhile {p : Char → Bool} {run rest : List Char}
    (h : (run ++ rest).takeWhile p = run) (offset : Nat) :
    skipFrom p offset (run ++ rest) = ⟨offset + byteSize run, rest⟩ := by
  have hdrop := drop_length_takeWhile p offset (run ++ rest)
  rw [h, drop_append] at hdrop
  exact hdrop.symm

/-- A start tag with an attribute with a value put behind its name. -/
theorem TagSpan.ofStartTag_insert (hvalue : entry.value = some value) {name rest : List Char}
    (hname : (name ++ rest).takeWhile inTagName = name) (start : Nat) :
    ofStartTag start (name ++ (entry.write ++ rest)) =
      ({ (ofStartTag start (name ++ rest)).1 with
          startTagEnd := (ofStartTag start (name ++ rest)).1.startTagEnd + byteSize entry.write
          stop := (ofStartTag start (name ++ rest)).1.stop + byteSize entry.write
          attributes := entry.span (ofStartTag start (name ++ rest)).1.nameEnd ::
            (ofStartTag start (name ++ rest)).1.attributes.map
              (·.mapPlaces (· + byteSize entry.write)) },
        (ofStartTag start (name ++ rest)).2.shift (byteSize entry.write)) := by
  have hname' : (name ++ (entry.write ++ rest)).takeWhile inTagName = name := by
    refine takeWhile_append_eq (fun c hc => ?_) ?_
    · rw [← hname] at hc
      exact List.all_eq_true.1 List.all_takeWhile c hc
    · simp [Written.Attribute.write, inTagName, isTagBlank]
  rw [ofStartTag_eq (skipFrom_eq_of_takeWhile hname _),
    ofStartTag_eq (skipFrom_eq_of_takeWhile hname' _), hname, hname', attributesAt_insert hvalue]
  rfl

/-- The end of a tag is not seen in what does not end in one of its characters. -/
theorem suffix_append_iff {run consumed : List Char}
    (hrun : ∀ c ∈ run.getLast?, c ≠ '/' ∧ c ≠ '>') :
    ['/', '>'] <:+ run ++ consumed ↔ ['/', '>'] <:+ consumed := by
  refine ⟨fun h => ?_, fun h => h.trans (List.suffix_append run consumed)⟩
  match consumed with
  | [] =>
    -- the run would end in the end of the tag
    obtain ⟨more, hmore⟩ := h
    rw [List.append_nil] at hmore
    have hlast : '>' ∈ run.getLast? := by simp [← hmore, List.getLast?_append]
    exact absurd rfl (hrun '>' hlast).2
  | [c] =>
    -- the run would end in the slash
    obtain ⟨more, hmore⟩ := h
    have hlast : '/' ∈ run.getLast? := by
      have hsplit : (more ++ ['/']) ++ ['>'] = run ++ [c] := by simp [← hmore]
      obtain ⟨rfl, -⟩ := List.append_inj' hsplit rfl
      simp [List.getLast?_append]
    exact absurd rfl (hrun '/' hlast).1
  | _ :: _ :: _ => exact List.suffix_of_suffix_length_le h (List.suffix_append _ _) (by simp)

theorem isSelfClosing_insert (hvalue : entry.value = some value) {name consumed after : List Char}
    (hname : ∀ c ∈ name, inTagName c = true) :
    isSelfClosing (name ++ (entry.write ++ (consumed ++ after))) after =
      isSelfClosing (name ++ (consumed ++ after)) after := by
  -- a name holds no character of the end of a tag, and a value ends in its quote
  have hlast : ∀ c ∈ name.getLast?, c ≠ '/' ∧ c ≠ '>' := by
    intro c hc
    have hin := hname c (List.mem_of_getLast? hc)
    constructor <;> rintro rfl <;> exact absurd hin (by decide)
  have hlast' : ∀ c ∈ (name ++ entry.write).getLast?, c ≠ '/' ∧ c ≠ '>' := by
    intro c hc
    have hquote : c = value.quote := by
      simp only [List.getLast?_append, Written.Attribute.write, Written.Value.write, hvalue,
        List.getLast?_cons] at hc
      simpa using hc.symm
    rcases value.quote_eq with hq | hq <;> rw [hquote, hq] <;> decide
  rw [← List.append_assoc, ← List.append_assoc, isSelfClosing_append, ← List.append_assoc,
    isSelfClosing_append, Bool.eq_iff_iff, List.isSuffixOf_iff_suffix, List.isSuffixOf_iff_suffix,
    suffix_append_iff hlast', suffix_append_iff hlast]

/-- The scan of the tag goes on where it did. -/
theorem Mark.ofStartTag_insert (hvalue : entry.value = some value) {name rest : List Char}
    (hname : (name ++ rest).takeWhile inTagName = name) {start : Nat} {opened : TagSpan}
    {hasContent : Bool} {cursor : Cursor}
    (h : ofStartTag start (name ++ rest) = (.opening opened hasContent, cursor)) :
    ofStartTag start (name ++ (entry.write ++ rest)) =
      (.opening { opened with
          startTagEnd := opened.startTagEnd + byteSize entry.write
          stop := opened.stop + byteSize entry.write
          attributes := entry.span opened.nameEnd ::
            opened.attributes.map (·.mapPlaces (· + byteSize entry.write)) } hasContent,
        cursor.shift (byteSize entry.write)) := by
  have hspan := TagSpan.ofStartTag_eq (skipFrom_eq_of_takeWhile hname (start + 1))
  obtain ⟨consumed, hconsumed⟩ : ∃ consumed, rest = consumed ++
      (TagSpan.ofStartTag start (name ++ rest)).2.rest := by
    obtain ⟨_, hstands⟩ := (Cursor.mk (start + 1 + byteSize name) rest).exists_standsIn
    obtain ⟨⟨consumed, hconsumed⟩, -⟩ := attributesAt_standsIn hstands
    rw [hspan]
    exact ⟨consumed, hconsumed.1⟩
  have hchars : ∀ c ∈ name, inTagName c = true := by
    rw [← hname]
    exact List.all_eq_true.1 List.all_takeWhile
  have hread := TagSpan.ofStartTag_insert hvalue hname start
  cases hfound : TagSpan.ofStartTag start (name ++ rest) with
  | mk span after =>
  rw [hfound] at hread hconsumed
  obtain ⟨hmark, rfl⟩ := Prod.mk.inj ((ofStartTag_eq hfound rfl).symm.trans h)
  obtain ⟨rfl, rfl⟩ := Mark.opening.inj hmark
  have hclosing : isSelfClosing (name ++ (entry.write ++ rest)) after.rest =
      isSelfClosing (name ++ rest) after.rest := by
    rw [show rest = consumed ++ after.rest from hconsumed]
    exact isSelfClosing_insert hvalue hchars
  rw [ofStartTag_eq hread (congrArg (!isVoid span.name && !·) hclosing)]
  dsimp only
  rw [skipRawText_shift, ← apply_ite (Cursor.shift (byteSize entry.write))]

namespace TagSpan

/-- The span of an element whose start tag gets an attribute behind its name, which ends at a
place. -/
def insertAttribute (span : TagSpan) (entry : Written.Attribute) (place : Nat) : TagSpan :=
  { span.mapPlaces (moved place (byteSize entry.write)) with
    nameEnd := span.nameEnd
    attributes := entry.span place ::
      span.attributes.map (·.mapPlaces (moved place (byteSize entry.write))) }

/-- Only the name of the tag stands before the attribute. -/
theorem StandsIn.insertAttribute_eq {span : TagSpan} (h : span.StandsIn text)
    (entry : Written.Attribute) :
    span.insertAttribute entry span.nameEnd =
      { span with
        startTagEnd := span.startTagEnd + byteSize entry.write
        stop := span.stop + byteSize entry.write
        attributes := entry.span span.nameEnd ::
          span.attributes.map (·.mapPlaces (· + byteSize entry.write)) } := by
  have hattributes := h.attributes_in.mapPlaces_congr
    (f := moved span.nameEnd (byteSize entry.write)) (g := (· + byteSize entry.write))
    fun place hle _ => moved_of_le hle
  have hstop := h.nameEnd_le_startTagEnd.trans h.startTagEnd_le_stop
  simp only [insertAttribute, mapPlaces, hattributes, moved_of_lt h.start_lt_nameEnd,
    moved_of_le h.nameEnd_le_startTagEnd, moved_of_le hstop]

/-- An attribute with a value that is put behind the name of a start tag becomes the first one of
its tag. All other places at or behind it are moved. -/
theorem scan_insertAttribute (hvalue : entry.value = some value) {before after : List TagSpan}
    {span : TagSpan} (h : (TagSpan.scan text).toList = before ++ span :: after) :
    ∃ changed, splice? text ⟨span.nameEnd, span.nameEnd⟩ entry.write = some changed ∧
      (TagSpan.scan changed).toList =
        before.map (·.mapPlaces (moved span.nameEnd (byteSize entry.write))) ++
          span.insertAttribute entry span.nameEnd ::
            after.map (·.mapPlaces (moved span.nameEnd (byteSize entry.write))) := by
  obtain ⟨earlier, opened, hasContent, passed, first, rest, cursor, htag, hspan, -⟩ :=
    exists_startTagAt h
  obtain ⟨hopened, hcursor, htagEnd⟩ := htag.standsIn
  have hnameEnd : span.nameEnd = opened.nameEnd := by rw [hspan]
  rw [hnameEnd]
  -- the name, and what follows it
  obtain ⟨tail, more, rfl, hname⟩ : ∃ tail more, rest = tail ++ more ∧
      (first :: tail ++ more).takeWhile inTagName = first :: tail := by
    refine ⟨rest.takeWhile inTagName, rest.dropWhile inTagName,
      List.takeWhile_append_dropWhile.symm, ?_⟩
    rw [List.cons_append, List.takeWhile_append_dropWhile, List.takeWhile_cons,
      if_pos (inTagName_of_isAlpha htag.isAlpha)]
  have hplace : opened.nameEnd = byteSize (passed ++ '<' :: first :: tail) := by
    rw [htag.nameEnd_eq, ← List.cons_append, hname]
  have htext : text = (passed ++ '<' :: first :: tail) ++ ([] ++ more) := by
    rw [htag.text_eq]
    simp
  have hchanged := Text.splice?_append (passed ++ '<' :: first :: tail) [] more entry.write
  rw [← htext, ← hplace, byteSize_nil, Nat.add_zero] at hchanged
  refine ⟨_, hchanged, ?_⟩
  let revision : Revision :=
    { index := before.length
      own := (·.insertAttribute entry opened.nameEnd)
      added := []
      place := moved opened.nameEnd (byteSize entry.write) }
  -- the tag is read with the new attribute, and the tags behind it are moved
  have hread := Mark.ofStartTag_insert hvalue hname htag.read
  rw [List.cons_append] at hread
  have hscan := htag.scan_of_read hread
  rw [Mark.scan_shift_eq_moved hcursor (hopened.nameEnd_le_startTagEnd.trans htagEnd),
    ← List.cons_append, ← List.cons_append, ← List.append_assoc,
    ← List.nil_append ((Mark.scan cursor).map _)] at hscan
  have hfollows : Nesting.Follows revision ⟨TagSpan.scan text, []⟩
      ⟨TagSpan.scan (passed ++ '<' :: first :: tail ++ (entry.write ++ more)), []⟩ := by
    refine follows_scan htag.scan_text hscan (fun nesting => by simp [revision])
      htag.size_eq ?_ (fun place hle => moved_of_lt (hle.trans_lt hopened.start_lt_nameEnd))
      ⟨rfl, rfl⟩ ⟨(opened.insertAttribute entry opened.nameEnd).stop, ?_, fun _ => rfl⟩
      (fun _ _ _ => rfl)
    · have hle : opened.nameEnd ≤ byteSize text := by
        rw [hplace, htext, byteSize_append (passed ++ _)]
        exact Nat.le_add_right _ _
      rw [show revision.place (byteSize text) = _ from moved_of_le hle, htext]
      simp only [byteSize_append, byteSize_nil]
      omega
    · exact (hopened.insertAttribute_eq entry).symm
  exact hfollows.toList_eq h rfl

end TagSpan

end Attributes

/-! ### Content -/

/-- A part of a text ends where a beginning of the text does if the beginning ends in it. -/
theorem slice?_eq_some_iff_suffix {before after part : List Char} :
    slice? (before ++ after) ⟨byteSize before - byteSize part, byteSize before⟩ = some part ↔
      part <:+ before := by
  rw [slice?_eq_some_iff]
  constructor
  · rintro ⟨start, rest, htext, -, hstop⟩
    rw [← List.append_assoc] at htext
    have hsize : byteSize (start ++ part) = byteSize before := by
      rw [byteSize_append]
      exact hstop.symm
    obtain ⟨between, hbetween⟩ := exists_append_of_byteSize_le htext.symm hsize.le
    have hnil : byteSize between = 0 := by
      have hsum := congrArg byteSize hbetween
      rw [byteSize_append (start ++ part)] at hsum
      omega
    rw [eq_nil_of_byteSize_eq_zero hnil, List.append_nil] at hbetween
    exact ⟨start, hbetween.symm⟩
  · rintro ⟨start, rfl⟩
    refine ⟨start, after, List.append_assoc _ _ _, ?_, ?_⟩
    · rw [byteSize_append, Nat.add_sub_cancel]
    · rw [byteSize_append]

namespace TagSpan

/-- The start tag is closed by a `>` that belongs to none of its values. -/
structure IsClosed (text : List Char) (span : TagSpan) : Prop where
  slice_eq : slice? text ⟨span.startTagEnd - 1, span.startTagEnd⟩ = some ['>']
  value_stop_lt : ∀ entry ∈ span.attributes, ∀ value ∈ entry.value, value.stop < span.startTagEnd

/-- A closed tag does not end with the text if a `>` there belongs to a value that ends with it. -/
theorem IsClosed.startTagEnd_ne {span : TagSpan} (h : span.IsClosed text)
    (hvalue : ['>'] <:+ text → ∃ entry ∈ span.attributes, ∃ value ∈ entry.value,
      value.stop = span.startTagEnd) : span.startTagEnd ≠ byteSize text := by
  intro hend
  have hslice :
      slice? (text ++ []) ⟨byteSize text - byteSize ['>'], byteSize text⟩ = some ['>'] := by
    rw [List.append_nil, ← hend]
    exact h.slice_eq
  obtain ⟨entry, hentry, value, hvalue, hstop⟩ := hvalue (slice?_eq_some_iff_suffix.1 hslice)
  exact absurd hstop (h.value_stop_lt entry hentry value hvalue).ne

/-- Whether the start tag ends in `/>`. -/
def endsInSlash (text : List Char) (span : TagSpan) : Bool :=
  slice? text ⟨span.startTagEnd - 2, span.startTagEnd⟩ == some ['/', '>']

/-- The span of an element with something inserted behind its start tag, which ends at a place. An
element without content ends where it did. -/
def insertContent (span : TagSpan) (hasContent : Bool) (place size : Nat) : TagSpan :=
  { span.mapPlaces (moved place size) with
    startTagEnd := span.startTagEnd
    stop := if hasContent then moved place size span.stop else span.stop }

end TagSpan

namespace StartTagAt

variable {k : Nat} {earlier : List Mark} {span : TagSpan} {hasContent : Bool}
  {passed rest : List Char} {first : Char} {cursor : Cursor}

/-- A start tag that is closed by `>` is read whatever follows. -/
theorem exists_of_isClosed
    (h : StartTagAt text k earlier span hasContent passed first rest cursor)
    (hclosed : span.IsClosed text) :
    ∃ tail more, rest = tail ++ '>' :: more ∧
      span.startTagEnd = byteSize (passed ++ '<' :: first :: (tail ++ ['>'])) ∧
      ∀ other, TagSpan.ofStartTag span.start (first :: (tail ++ '>' :: other)) =
        (span, ⟨span.startTagEnd, other⟩) := by
  have hstart : (Cursor.mk span.start ('<' :: first :: rest)).StandsIn text :=
    ⟨passed, h.text_eq, by rw [h.start_eq, Nat.zero_add]⟩
  obtain ⟨⟨tag, htag⟩, -⟩ :=
    TagSpan.standsIn_ofStartTag hstart (inTagName_of_isAlpha h.isAlpha)
  obtain ⟨after, hread, -⟩ := h.exists_read
  have hsettled := TagSpan.ofStartTag_settled span.start (first :: rest)
  rw [hread] at hsettled htag
  rcases hsettled with ⟨inner, hinner, hother⟩ | ⟨hnil, hvalue⟩
  · cases inner with
    | nil =>
      obtain ⟨rfl, -⟩ := List.cons.inj hinner
      exact absurd h.isAlpha (by decide)
    | cons _ tail =>
      obtain ⟨rfl, hrest⟩ := List.cons.inj hinner
      refine ⟨tail, after, hrest, ?_, hother⟩
      have hcut : '<' :: first :: rest = ('<' :: first :: (tail ++ ['>'])) ++ after := by
        rw [hrest]
        simp
      have htext : tag = '<' :: first :: (tail ++ ['>']) :=
        List.append_cancel_right (htag.1.symm.trans hcut)
      rw [byteSize_append, ← htext, ← h.start_eq]
      exact htag.2
  · -- a tag that the end of the text cuts off ends in a value, if it ends in the character
    have hvalue' : ['>'] <:+ text → ∃ entry ∈ span.attributes, ∃ value ∈ entry.value,
        value.stop = span.startTagEnd := by
      intro hlast
      have htext : text = (passed ++ ['<']) ++ first :: rest := by
        rw [h.text_eq]
        simp
      rw [htext] at hlast
      exact hvalue (suffix_right hlast (List.cons_ne_nil _ _))
    have hsize := (htag.standsIn hstart).offset_add_byteSize
    rw [hnil, byteSize_nil, Nat.add_zero] at hsize
    exact absurd hsize (hclosed.startTagEnd_ne hvalue')

/-- The name of a closed tag ends before the end of the tag. -/
theorem nameEnd_lt (h : StartTagAt text k earlier span hasContent passed first rest cursor)
    {tail more : List Char} (hrest : rest = tail ++ '>' :: more)
    (hend : span.startTagEnd = byteSize (passed ++ '<' :: first :: (tail ++ ['>']))) :
    span.nameEnd < span.startTagEnd := by
  -- a name does not go over the end of its tag
  have hname : (first :: rest).takeWhile inTagName <+: first :: tail := by
    have hprefix : (first :: rest).takeWhile inTagName <+: first :: rest :=
      List.takeWhile_prefix inTagName
    have hgt : '>' ∉ (first :: rest).takeWhile inTagName := fun hmem =>
      absurd (List.all_eq_true.1 List.all_takeWhile _ hmem) (by decide)
    rw [hrest, ← List.cons_append] at hprefix hgt ⊢
    exact (prefix_append_cons_iff hgt).1 hprefix
  obtain ⟨between, hbetween⟩ := hname
  have hsize := congrArg byteSize hbetween
  rw [h.nameEnd_eq, hend]
  simp only [byteSize_append, byteSize_cons] at hsize ⊢
  have hpos : 0 < '>'.utf8Size := Char.utf8Size_pos '>'
  omega

/-- Whether the element stays open is seen in the text. -/
theorem hasContent_eq (h : StartTagAt text k earlier span hasContent passed first rest cursor) :
    hasContent = (!isVoid span.name && !span.endsInSlash text) := by
  have hstart : (Cursor.mk span.start ('<' :: first :: rest)).StandsIn text :=
    ⟨passed, h.text_eq, by rw [h.start_eq, Nat.zero_add]⟩
  obtain ⟨⟨tag, htag⟩, -⟩ :=
    TagSpan.standsIn_ofStartTag hstart (inTagName_of_isAlpha h.isAlpha)
  obtain ⟨more, hread, hcontent, -⟩ := h.exists_read
  rw [hread] at htag
  obtain ⟨hcut, hend⟩ := htag
  obtain ⟨tail, rfl⟩ : ∃ tail, tag = '<' :: tail := by
    cases tag with
    | nil =>
      have hspan := h.standsIn.1
      have hpos := hspan.start_lt_nameEnd.trans_le hspan.nameEnd_le_startTagEnd
      exact absurd hend hpos.ne'
    | cons c tail =>
      obtain ⟨rfl, -⟩ := List.cons.inj hcut
      exact ⟨tail, rfl⟩
  have hrest : first :: rest = tail ++ more := (List.cons.inj hcut).2
  have htext : text = (passed ++ ['<']) ++ tail ++ more := by
    rw [h.text_eq, hrest]
    simp
  have hplace : span.startTagEnd = byteSize ((passed ++ ['<']) ++ tail) := by
    rw [show span.startTagEnd = _ from hend, h.start_eq]
    simp
  have hclosing : isSelfClosing (first :: rest) more = span.endsInSlash text := by
    have hsize : 2 = byteSize ['/', '>'] := rfl
    -- the `<` of the tag is no part of its end
    rw [hrest, isSelfClosing_append, Bool.eq_iff_iff, List.isSuffixOf_iff_suffix,
      TagSpan.endsInSlash, beq_iff_eq, htext, hplace, hsize, slice?_eq_some_iff_suffix,
      suffix_append_iff (by simp)]
  rw [hcontent, hclosing]

/-- The scan goes on right behind a closed tag whose element has content that is no text, whatever
that is. -/
theorem read_of_isClosed
    {tail more : List Char}
    (h : StartTagAt text k earlier span hasContent passed first (tail ++ '>' :: more) cursor)
    (hraw : isRawText span.name = false)
    (hread : ∀ other, TagSpan.ofStartTag span.start (first :: (tail ++ '>' :: other)) =
      (span, ⟨span.startTagEnd, other⟩)) (other : List Char) :
    Mark.ofStartTag span.start (first :: (tail ++ '>' :: other)) =
      (.opening span hasContent, ⟨span.startTagEnd, other⟩) := by
  -- whether a slash closes the tag is seen in the tag itself
  have hclosing : ∀ other, isSelfClosing (first :: (tail ++ '>' :: other)) other =
      ['/', '>'].isSuffixOf (first :: (tail ++ ['>'])) := by
    intro other
    rw [← isSelfClosing_append _ other]
    simp
  obtain ⟨_, hread', hcontent, -⟩ := h.exists_read
  obtain rfl := (Cursor.mk.inj (Prod.mk.inj ((hread more).symm.trans hread')).2).2
  have hskip : ∀ cursor, skipRawText span.name cursor = cursor := fun _ =>
    if_neg (Bool.eq_false_iff.1 hraw)
  have hother : (!isVoid span.name && !isSelfClosing (first :: (tail ++ '>' :: other)) other) =
      hasContent := by
    rw [hcontent, hclosing, hclosing]
  rw [Mark.ofStartTag_eq (hread other) hother, hskip, ite_self]

end StartTagAt

namespace TagSpan

/-- The tag stands before what is inserted behind it. -/
theorem StandsIn.insertContent_eq {span : TagSpan} {size : Nat} {hasContent : Bool}
    (h : span.StandsIn text) (hclosed : span.IsClosed text)
    (hnameEnd : span.nameEnd < span.startTagEnd) :
    { span.insertContent hasContent span.startTagEnd size with stop := span.stop } = span := by
  have hattributes : span.attributes.map (·.mapPlaces (moved span.startTagEnd size)) =
      span.attributes := by
    refine (List.map_congr_left fun entry hentry => ?_).trans (List.map_id _)
    have hvalue : entry.value.map (·.mapPlaces (moved span.startTagEnd size)) = entry.value := by
      refine (Option.map_congr fun value hvalue => ?_).trans Option.map_id'
      have hlt := hclosed.value_stop_lt entry hentry value hvalue
      obtain ⟨-, -, hfits⟩ := h.attributes_in.value_mem entry hentry value hvalue
      have hle := (fits_iff_isBoundary.1 hfits).1
      rw [Extent.mapPlaces, moved_of_lt (hle.trans_lt hlt), moved_of_lt hlt]
    rw [AttributeSpan.mapPlaces, hvalue]
    rfl
  simp only [insertContent, mapPlaces, hattributes, moved_of_lt hnameEnd,
    moved_of_lt (h.start_lt_nameEnd.trans hnameEnd)]

/-- What is inserted behind a closed start tag adds its elements after that of the tag, if it leaves
no element open and the scan passes over it. All other places at or behind it are moved. -/
theorem scan_insertContent {before after added : List TagSpan} {span : TagSpan}
    {inserted : List Char} {between : List Mark}
    (h : (TagSpan.scan text).toList = before ++ span :: after)
    (hraw : isRawText span.name = false) (hclosed : span.IsClosed text)
    (hmarks : ∀ rest, Mark.scan ⟨span.startTagEnd, inserted ++ rest⟩ =
      between ++ Mark.scan ⟨span.startTagEnd + byteSize inserted, rest⟩)
    (hbetween : ∀ nesting : Nesting, between.foldl Nesting.add nesting =
      ⟨nesting.spans ++ added.toArray, nesting.opened⟩) :
    ∃ changed, splice? text ⟨span.startTagEnd, span.startTagEnd⟩ inserted = some changed ∧
      (TagSpan.scan changed).toList =
        before.map (·.mapPlaces (moved span.startTagEnd (byteSize inserted))) ++
          span.insertContent (!isVoid span.name && !span.endsInSlash text) span.startTagEnd
            (byteSize inserted) ::
              (added ++ after.map (·.mapPlaces (moved span.startTagEnd (byteSize inserted)))) := by
  obtain ⟨earlier, opened, hasContent, passed, first, rest, cursor, htag, hspan, -⟩ :=
    exists_startTagAt h
  obtain ⟨hopened, hcursor, htagEnd⟩ := htag.standsIn
  have hstartTagEnd : span.startTagEnd = opened.startTagEnd := by rw [hspan]
  have hname : span.name = opened.name := by rw [hspan]
  have hclosed : opened.IsClosed text := by
    rw [hspan] at hclosed
    exact ⟨hclosed.slice_eq, hclosed.value_stop_lt⟩
  have hslash : span.endsInSlash text = opened.endsInSlash text := by
    rw [endsInSlash, endsInSlash, hstartTagEnd]
  -- the tag is read as before, whatever follows it
  obtain ⟨tail, more, rfl, hend, hread⟩ := htag.exists_of_isClosed hclosed
  have hcontent := htag.hasContent_eq
  have hnameEnd := htag.nameEnd_lt rfl hend
  rw [hname] at hraw
  rw [hstartTagEnd] at hmarks
  rw [hstartTagEnd, hname, hslash, ← hcontent]
  have hopen := htag.read_of_isClosed hraw hread
  obtain rfl := (Prod.mk.inj (htag.read.symm.trans (hopen more))).2
  have htext : text = (passed ++ '<' :: first :: (tail ++ ['>'])) ++ ([] ++ more) := by
    rw [htag.text_eq]
    simp
  have hchanged := Text.splice?_append (passed ++ '<' :: first :: (tail ++ ['>'])) [] more inserted
  rw [← htext, ← hend, byteSize_nil, Nat.add_zero] at hchanged
  refine ⟨_, hchanged, ?_⟩
  let revision : Revision :=
    { index := before.length
      own := (·.insertContent hasContent opened.startTagEnd (byteSize inserted))
      added
      place := moved opened.startTagEnd (byteSize inserted) }
  -- behind it stand the added elements, and then all others, moved
  have hscan := htag.scan_of_read (hopen (inserted ++ more))
  have hshift := Mark.scan_shift_eq_moved hcursor le_rfl (byteSize inserted)
  rw [hmarks, show Cursor.mk (opened.startTagEnd + byteSize inserted) more =
    (Cursor.mk opened.startTagEnd more).shift (byteSize inserted) from rfl, hshift] at hscan
  have hplain : passed ++ '<' :: first :: (tail ++ '>' :: (inserted ++ more)) =
      passed ++ '<' :: first :: (tail ++ ['>']) ++ (inserted ++ more) := by simp
  rw [hplain] at hscan
  have hfollows : Nesting.Follows revision ⟨TagSpan.scan text, []⟩
      ⟨TagSpan.scan (passed ++ '<' :: first :: (tail ++ ['>']) ++ (inserted ++ more)), []⟩ := by
    refine follows_scan htag.scan_text hscan hbetween htag.size_eq ?_
      (fun place hle => moved_of_lt (hle.trans_lt (hopened.start_lt_nameEnd.trans hnameEnd)))
      ⟨rfl, rfl⟩ ⟨opened.stop, (hopened.insertContent_eq hclosed hnameEnd).symm, ?_⟩ ?_
    · have hle : opened.startTagEnd ≤ byteSize text :=
        hopened.startTagEnd_le_stop.trans hopened.stop_le
      rw [show revision.place (byteSize text) = _ from moved_of_le hle, htext]
      simp only [byteSize_append, byteSize_nil]
      omega
    · rintro rfl
      rfl
    · rintro rfl _ _
      rfl
  exact hfollows.toList_eq h rfl

end TagSpan

end ElementLint.Span
