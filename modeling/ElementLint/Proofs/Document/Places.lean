import ElementLint.Proofs.Document.Pairing
import ElementLint.Proofs.Document.Tree
import ElementLint.Proofs.Warning.Places

/-!
# Places in a document

The spans of a parsed document stand in its text (`Document.spansStand_parse`). Whatever range or
insertion a document answers for one of its elements then lies in its text. Together with the tree
and the order of the spans this is what the rules rely on (`Document.wellPlaced_parse`): the places
of values tell elements apart (`Document.WellPlaced.eq_of_attributeValueRange?`).
-/

namespace ElementLint.Document

open ElementLint.Span Text

variable {document : Document} {id later : NodeId} {range laterRange : SourceRange}
  {replacement : Replacement} {span laterSpan : TagSpan} {name : String}

/-- The spans of a document stand in its text. -/
def SpansStand (document : Document) : Prop :=
  ∀ span ∈ document.spans, span.StandsIn document.contents.toList

theorem spansStand_parse (url contents : String) : (parse url contents).SpansStand :=
  fun _ hmem => TagSpan.standsIn_of_mem_scan hmem

/-- The span of an element is one of those of the document. -/
theorem mem_spans_of_span?_eq_some (h : document.span? id = some span) :
    span ∈ document.spans := by
  obtain ⟨node, -, h⟩ := Option.bind_eq_some_iff.1 h
  obtain ⟨i, -, h⟩ := Option.bind_eq_some_iff.1 h
  exact Array.mem_of_getElem? h

theorem rangeOf_liesIn {offsets : Extent}
    (h : offsets.fits document.contents.toList = true) :
    (document.rangeOf offsets).LiesIn document.url document.contents :=
  ⟨rfl, h⟩

/-- A replacement of nothing at a boundary of the text inserts. -/
theorem insertsInto_rangeOf {place : Nat} (text : String)
    (hboundary : isBoundary document.contents.toList place = true)
    (hle : place ≤ byteSize document.contents.toList) :
    (Replacement.mk (document.rangeOf ⟨place, place⟩) text).InsertsInto document.url
      document.contents := by
  refine ⟨rangeOf_liesIn (fits_iff_isBoundary.2 ?_), rfl⟩
  exact ⟨le_rfl, hle, hboundary, hboundary⟩

namespace SpansStand

variable (hspans : document.SpansStand)
include hspans

theorem elementRange?_liesIn (h : document.elementRange? id = some range) :
    range.LiesIn document.url document.contents := by
  obtain ⟨span, hspan, rfl⟩ := Option.map_eq_some_iff.1 h
  have hstands := hspans span (mem_spans_of_span?_eq_some hspan)
  have hle := hstands.start_lt_nameEnd.le.trans
    (hstands.nameEnd_le_startTagEnd.trans hstands.startTagEnd_le_stop)
  exact rangeOf_liesIn (fits_iff_isBoundary.2
    ⟨hle, hstands.stop_le, hstands.start_boundary, hstands.stop_boundary⟩)

theorem startTagRange?_liesIn (h : document.startTagRange? id = some range) :
    range.LiesIn document.url document.contents := by
  obtain ⟨span, hspan, rfl⟩ := Option.map_eq_some_iff.1 h
  have hstands := hspans span (mem_spans_of_span?_eq_some hspan)
  have hle := hstands.start_lt_nameEnd.le.trans hstands.nameEnd_le_startTagEnd
  have hsize := hstands.startTagEnd_le_stop.trans hstands.stop_le
  exact rangeOf_liesIn (fits_iff_isBoundary.2
    ⟨hle, hsize, hstands.start_boundary, hstands.startTagEnd_boundary⟩)

/-- A value stands in the start tag of its element, behind the tag name. -/
theorem exists_of_attributeValueRange?_eq_some
    (h : document.attributeValueRange? id name = some range) :
    ∃ span value, document.span? id = some span ∧ document.rangeOf value = range ∧
      span.nameEnd ≤ value.start ∧ value.stop ≤ span.startTagEnd ∧
      value.fits document.contents.toList = true := by
  obtain ⟨span, hspan, h⟩ := Option.bind_eq_some_iff.1 h
  obtain ⟨entry, hentry, h⟩ := Option.bind_eq_some_iff.1 h
  obtain ⟨value, hvalue, rfl⟩ := Option.map_eq_some_iff.1 h
  have hstands := hspans span (mem_spans_of_span?_eq_some hspan)
  exact ⟨span, value, hspan, rfl, hstands.attributes_in.value_mem entry
    (List.mem_of_find?_eq_some hentry) value hvalue⟩

theorem attributeValueRange?_liesIn (h : document.attributeValueRange? id name = some range) :
    range.LiesIn document.url document.contents := by
  obtain ⟨span, value, -, rfl, -, -, hfits⟩ := hspans.exists_of_attributeValueRange?_eq_some h
  exact rangeOf_liesIn hfits

theorem insertAfterTagName?_insertsInto {text : String}
    (h : document.insertAfterTagName? id text = some replacement) :
    replacement.InsertsInto document.url document.contents := by
  obtain ⟨span, hspan, rfl⟩ := Option.map_eq_some_iff.1 h
  have hstands := hspans span (mem_spans_of_span?_eq_some hspan)
  exact insertsInto_rangeOf text hstands.nameEnd_boundary
    (hstands.nameEnd_le_startTagEnd.trans (hstands.startTagEnd_le_stop.trans hstands.stop_le))

theorem prependContent?_insertsInto {text : String}
    (h : document.prependContent? id text = some replacement) :
    replacement.InsertsInto document.url document.contents := by
  obtain ⟨span, hspan, rfl⟩ := Option.map_eq_some_iff.1 h
  have hstands := hspans span (mem_spans_of_span?_eq_some hspan)
  exact insertsInto_rangeOf text hstands.startTagEnd_boundary
    (hstands.startTagEnd_le_stop.trans hstands.stop_le)

end SpansStand

/-- A document whose nodes are a tree and whose spans stand in its text in the order of its
elements. -/
structure WellPlaced (document : Document) : Prop where
  isTree : document.IsTree
  spansStand : document.SpansStand
  spansOrdered : document.SpansOrdered

theorem wellPlaced_parse (url contents : String) : (parse url contents).WellPlaced :=
  ⟨isTree_parse url contents, spansStand_parse url contents, spansOrdered_parse url contents⟩

/-- The elements are the nodes with a tag name. -/
theorem isElement_iff : document.isElement id = true ↔ ∃ tag, document.tagName? id = some tag := by
  rw [isElement, tagName?, ← Option.isSome_iff_exists]
  cases document.node? id <;> rfl

/-- The tag name of an element stands behind the start tags of the elements before it. -/
theorem WellPlaced.startTagEnd_lt_nameEnd (h : document.WellPlaced) (hlt : id < later)
    (hid : document.isElement id = true) (hlater : document.isElement later = true)
    (hspan : document.span? id = some span) (hlaterSpan : document.span? later = some laterSpan) :
    span.startTagEnd < laterSpan.nameEnd := by
  have hle := h.spansOrdered id later span laterSpan hlt hid hlater hspan hlaterSpan
  have hstands := h.spansStand laterSpan (mem_spans_of_span?_eq_some hlaterSpan)
  exact hle.trans_lt hstands.start_lt_nameEnd

/-- The values of an attribute stand in the text in the order of the elements. -/
theorem WellPlaced.attributeValueRange?_lt (h : document.WellPlaced) (hlt : id < later)
    (hid : document.isElement id = true) (hlater : document.isElement later = true)
    (hrange : document.attributeValueRange? id name = some range)
    (hlaterRange : document.attributeValueRange? later name = some laterRange) :
    range.offsets.start < laterRange.offsets.start := by
  obtain ⟨span, value, hspan, rfl, -, hstop, hfits⟩ :=
    h.spansStand.exists_of_attributeValueRange?_eq_some hrange
  obtain ⟨laterSpan, laterValue, hlaterSpan, rfl, hstart, -, -⟩ :=
    h.spansStand.exists_of_attributeValueRange?_eq_some hlaterRange
  calc value.start
    _ ≤ value.stop := (fits_iff_isBoundary.1 hfits).1
    _ ≤ span.startTagEnd := hstop
    _ < laterSpan.nameEnd := h.startTagEnd_lt_nameEnd hlt hid hlater hspan hlaterSpan
    _ ≤ laterValue.start := hstart

/-- The place of a value tells which element it belongs to. -/
theorem WellPlaced.eq_of_attributeValueRange? (h : document.WellPlaced)
    (hid : document.isElement id = true) (hlater : document.isElement later = true)
    (hrange : document.attributeValueRange? id name = some range)
    (hlaterRange : document.attributeValueRange? later name = some range) : id = later := by
  rcases Nat.lt_trichotomy id later with hlt | heq | hlt
  · exact absurd (h.attributeValueRange?_lt hlt hid hlater hrange hlaterRange) (Nat.lt_irrefl _)
  · exact heq
  · exact absurd (h.attributeValueRange?_lt hlt hlater hid hlaterRange hrange) (Nat.lt_irrefl _)

end ElementLint.Document
