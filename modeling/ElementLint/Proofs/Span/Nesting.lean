import ElementLint.Proofs.Span.Mark
import ElementLint.Span.Nesting

/-!
# The nesting of elements

What the elements found so far have to do with each other is the invariant `Nesting.WellNested`. It
holds at every place of the scan: an element that is not open any more has ended there, and every
later element either started after that end or has ended too, not after it. Ending the innermost
open elements keeps it (`WellNested.endAt`), and so does a new element (`WellNested.push`); all
kinds of tags are made of these two steps.

The main result is `TagSpan.scan_wellNested`: in every text the scan finds spans that stand in the
text, one start tag after the other, and elements of which any two lie in each other or apart.
-/

namespace ElementLint.Span

open Text Cursor

variable {text : List Char}

namespace Nesting

/-! ### Ending elements -/

theorem size_endAt (spans : Array TagSpan) (tags : List OpenTag) (stop : Nat) :
    (endAt spans tags stop).size = spans.size := by
  induction tags generalizing spans with
  | nil => rfl
  | cons tag rest ih => simpa [endAt] using ih (spans.modify tag.index ({ · with stop }))

/-- Ending some elements changes their ends and nothing else. -/
theorem getElem?_endAt (spans : Array TagSpan) (tags : List OpenTag) (stop i : Nat) :
    (endAt spans tags stop)[i]? =
      if i ∈ tags.map (·.index) then spans[i]?.map ({ · with stop }) else spans[i]? := by
  induction tags generalizing spans with
  | nil => simp [endAt]
  | cons tag rest ih =>
    have hstep := ih (spans.modify tag.index ({ · with stop }))
    rw [Array.getElem?_modify] at hstep
    rw [show endAt spans (tag :: rest) stop
      = endAt (spans.modify tag.index ({ · with stop })) rest stop from rfl, hstep]
    by_cases hrest : i ∈ rest.map (·.index) <;> by_cases htag : tag.index = i
    · simp [hrest, htag, Function.comp_def]
    · simp [hrest, htag]
    · simp [hrest, htag]
    · simp [hrest, htag, Ne.symm htag]

/-- The elements that a start tag ends are the innermost open ones. -/
theorem append_of_splitImplied_eq_some {closes bounds : List String}
    {opened inner outer : List OpenTag} {tag : OpenTag}
    (h : splitImplied closes bounds opened = some (inner, tag, outer)) :
    opened = (inner ++ [tag]) ++ outer := by
  unfold splitImplied at h
  dsimp only at h
  split at h
  · next innermost rest hdrop =>
    split at h
    · simp only [Option.some.injEq, Prod.mk.injEq] at h
      obtain ⟨rfl, rfl, rfl⟩ := h
      rw [List.append_assoc, List.singleton_append, ← hdrop]
      -- what is left out is a first part of the open elements, with bounds or without
      refine (List.prefix_iff_eq_append.1 ?_).symm
      split
      · exact List.nil_prefix
      · exact List.takeWhile_prefix _
    · contradiction
  · contradiction

/-- The elements that an end tag ends are the innermost open ones up to the first of its name. -/
theorem append_of_drop_takeWhile_eq_cons {name : String} {opened outer : List OpenTag}
    {tag : OpenTag}
    (h : opened.drop (opened.takeWhile (·.name != name)).length = tag :: outer) :
    opened = opened.takeWhile (·.name != name) ++ ([tag] ++ outer) := by
  rw [List.singleton_append, ← h]
  exact (List.prefix_iff_eq_append.1 (List.takeWhile_prefix _)).symm

/-- A start tag ends some of the innermost open elements, or none. -/
theorem exists_closeImplied_eq (nesting : Nesting) (name : String) (place : Nat) :
    ∃ inner outer, nesting.opened = inner ++ outer ∧
      nesting.closeImplied name place = ⟨endAt nesting.spans inner place, outer⟩ := by
  unfold closeImplied
  split
  · exact ⟨[], _, rfl, rfl⟩
  · split
    · exact ⟨[], _, rfl, rfl⟩
    · next hsplit => exact ⟨_, _, append_of_splitImplied_eq_some hsplit, rfl⟩

/-- An end tag ends some of the innermost open elements at its two ends, or none. -/
theorem exists_close_eq (nesting : Nesting) (name : String) (extent : Extent) :
    ∃ inner last outer, nesting.opened = inner ++ (last ++ outer) ∧ nesting.close name extent =
      ⟨endAt (endAt nesting.spans inner extent.start) last extent.stop, outer⟩ := by
  unfold close
  dsimp only
  split
  · exact ⟨[], [], _, rfl, rfl⟩
  · next hdrop => exact ⟨_, _, _, append_of_drop_takeWhile_eq_cons hdrop, rfl⟩

/-! ### The invariant -/

/-- The elements found up to a place of a text, which are numbered in the order of their start
tags. -/
structure WellNested (text : List Char) (nesting : Nesting) (place : Nat) : Prop where
  standsIn : ∀ (i : Nat) (span : TagSpan), nesting.spans[i]? = some span → span.StandsIn text
  stop_le : ∀ (i : Nat) (span : TagSpan), nesting.spans[i]? = some span → span.stop ≤ place
  opened_lt : ∀ tag ∈ nesting.opened, tag.index < nesting.spans.size
  /-- Elements that are open inside of others have later start tags. -/
  opened_sorted : (nesting.opened.map (·.index)).Pairwise (· > ·)
  startTagEnd_le : ∀ (i j : Nat) (a b : TagSpan), i < j → nesting.spans[i]? = some a →
    nesting.spans[j]? = some b → a.startTagEnd ≤ b.start
  /-- What starts in an element that has ended has ended too. -/
  nested : ∀ (i j : Nat) (a b : TagSpan), i < j → nesting.spans[i]? = some a →
    nesting.spans[j]? = some b → i ∉ nesting.opened.map (·.index) →
      (j ∉ nesting.opened.map (·.index) ∧ b.stop ≤ a.stop) ∨ a.stop ≤ b.start

namespace WellNested

variable {nesting : Nesting} {spans : Array TagSpan} {opened ended outer : List OpenTag}
  {span : TagSpan} {place stop : Nat}

theorem empty (text : List Char) : WellNested text .empty 0 where
  standsIn := by simp [Nesting.empty]
  stop_le := by simp [Nesting.empty]
  opened_lt := by simp [Nesting.empty]
  opened_sorted := .nil
  startTagEnd_le := by simp [Nesting.empty]
  nested := by simp [Nesting.empty]

/-- The place may be moved forward. -/
theorem mono (h : WellNested text nesting place) (hle : place ≤ stop) :
    WellNested text nesting stop :=
  { h with stop_le := fun i span hspan => (h.stop_le i span hspan).trans hle }

/-- Elements start in the order of their numbers. -/
theorem start_lt (h : WellNested text nesting place) {i j : Nat} {a b : TagSpan}
    (hij : i < j) (ha : nesting.spans[i]? = some a) (hb : nesting.spans[j]? = some b) :
    a.start < b.start :=
  calc a.start
    _ < a.nameEnd := (h.standsIn i a ha).start_lt_nameEnd
    _ ≤ a.startTagEnd := (h.standsIn i a ha).nameEnd_le_startTagEnd
    _ ≤ b.start := h.startTagEnd_le i j a b hij ha hb

theorem lt_of_start_lt (h : WellNested text nesting place) {i j : Nat} {a b : TagSpan}
    (ha : nesting.spans[i]? = some a) (hb : nesting.spans[j]? = some b)
    (hstart : a.start < b.start) : i < j := by
  rcases lt_trichotomy i j with hlt | rfl | hgt
  · exact hlt
  · obtain rfl := Option.some.inj (ha.symm.trans hb)
    exact absurd hstart (Nat.lt_irrefl _)
  · exact absurd hstart (Nat.lt_asymm (h.start_lt hgt hb ha))

/-- What is open further inside has a later number. -/
theorem index_lt (h : WellNested text nesting place) {tag inside : OpenTag}
    (hopened : nesting.opened = ended ++ outer) (hinside : inside ∈ ended) (htag : tag ∈ outer) :
    tag.index < inside.index := by
  have hsorted := h.opened_sorted
  rw [hopened, List.map_append, List.pairwise_append] at hsorted
  exact hsorted.2.2 _ (List.mem_map_of_mem hinside) _ (List.mem_map_of_mem htag)

/-- An element after the change of some ends comes from one before it. -/
theorem exists_of_getElem?_endAt {tags : List OpenTag} {i : Nat} {a : TagSpan}
    (h : (Nesting.endAt spans tags stop)[i]? = some a) :
    ∃ b, spans[i]? = some b ∧ a.start = b.start ∧ a.startTagEnd = b.startTagEnd ∧
      ((i ∈ tags.map (·.index) ∧ a = { b with stop }) ∨ (i ∉ tags.map (·.index) ∧ a = b)) := by
  rw [getElem?_endAt] at h
  split at h
  · next hmem =>
    obtain ⟨b, hb, rfl⟩ := Option.map_eq_some_iff.1 h
    exact ⟨b, hb, rfl, rfl, .inl ⟨hmem, rfl⟩⟩
  · next hmem => exact ⟨a, h, rfl, rfl, .inr ⟨hmem, rfl⟩⟩

/-- The innermost open elements may end at any later boundary of the text. -/
theorem endAt (h : WellNested text ⟨spans, ended ++ outer⟩ place) (hle : place ≤ stop)
    (hboundary : isBoundary text stop = true) (hsize : stop ≤ byteSize text) :
    WellNested text ⟨Nesting.endAt spans ended stop, outer⟩ stop := by
  have hsorted := h.opened_sorted
  rw [List.map_append, List.pairwise_append] at hsorted
  obtain ⟨-, houter, hbelow⟩ := hsorted
  -- what is not open any more and does not end now was not open before
  have hopened : ∀ i, i ∉ ended.map (·.index) → i ∉ outer.map (·.index) →
      i ∉ (ended ++ outer).map (·.index) := by
    intro i hended houter
    rw [List.map_append, List.mem_append]
    exact not_or.2 ⟨hended, houter⟩
  refine ⟨?_, ?_, ?_, houter, ?_, ?_⟩
  · intro i a ha
    obtain ⟨b, hb, -, -, ⟨-, rfl⟩ | ⟨-, rfl⟩⟩ := exists_of_getElem?_endAt ha
    · have hstop := (h.standsIn i b hb).startTagEnd_le_stop.trans (h.stop_le i b hb)
      exact (h.standsIn i b hb).endAt (hstop.trans hle) hboundary hsize
    · exact h.standsIn i a hb
  · intro i a ha
    obtain ⟨b, hb, -, -, ⟨-, rfl⟩ | ⟨-, rfl⟩⟩ := exists_of_getElem?_endAt ha
    · exact le_rfl
    · exact (h.stop_le i a hb).trans hle
  · intro tag htag
    rw [size_endAt]
    exact h.opened_lt tag (List.mem_append_right _ htag)
  · intro i j a b hij ha hb
    obtain ⟨a', ha', -, hend, -⟩ := exists_of_getElem?_endAt ha
    obtain ⟨b', hb', hstart, -, -⟩ := exists_of_getElem?_endAt hb
    rw [hend, hstart]
    exact h.startTagEnd_le i j a' b' hij ha' hb'
  · intro i j a b hij ha hb hi
    obtain ⟨a', ha', -, -, hia⟩ := exists_of_getElem?_endAt ha
    obtain ⟨b', hb', hstart, -, hjb⟩ := exists_of_getElem?_endAt hb
    rcases hia with ⟨hmem, rfl⟩ | ⟨hnot, rfl⟩
    · -- an element that ends now: whatever started in it is not open outside of it
      left
      refine ⟨fun hj => Nat.lt_asymm hij (hbelow i hmem j hj), ?_⟩
      rcases hjb with ⟨-, rfl⟩ | ⟨-, rfl⟩
      · exact le_rfl
      · exact (h.stop_le j b hb').trans hle
    · -- an element that had ended before: what started in it had ended too, so it keeps its end
      rcases h.nested i j a b' hij ha' hb' (hopened i hnot hi) with ⟨hj, hstop⟩ | hstop
      · rw [List.map_append, List.mem_append, not_or] at hj
        rcases hjb with ⟨hmem, -⟩ | ⟨-, rfl⟩
        · exact absurd hmem hj.1
        · exact .inl ⟨hj.2, hstop⟩
      · right
        rw [hstart]
        exact hstop

/-- A new element may start at any later place. -/
theorem push (h : WellNested text ⟨spans, opened⟩ place) (hspan : span.StandsIn text)
    (hstart : place ≤ span.start) (hstop : span.stop ≤ stop) (name : String) (hasContent : Bool) :
    WellNested text
      ⟨spans.push span, if hasContent then ⟨spans.size, name⟩ :: opened else opened⟩ stop := by
  have hplace : place ≤ stop :=
    calc place
      _ ≤ span.start := hstart
      _ ≤ span.nameEnd := hspan.start_lt_nameEnd.le
      _ ≤ span.startTagEnd := hspan.nameEnd_le_startTagEnd
      _ ≤ span.stop := hspan.startTagEnd_le_stop
      _ ≤ stop := hstop
  -- the new element has the last number; all others are what they were
  have hpushed : ∀ {i : Nat} {a : TagSpan}, (spans.push span)[i]? = some a →
      (i = spans.size ∧ a = span) ∨ (i < spans.size ∧ spans[i]? = some a) := by
    intro i a ha
    rw [Array.getElem?_push] at ha
    split at ha
    · next hi => exact .inl ⟨hi, (Option.some.inj ha).symm⟩
    · exact .inr ⟨(Array.getElem?_eq_some_iff.1 ha).1, ha⟩
  have hopened : ∀ i, i < spans.size →
      (i ∈ (if hasContent then ⟨spans.size, name⟩ :: opened else opened).map OpenTag.index ↔
        i ∈ opened.map (·.index)) := by
    intro i hi
    cases hasContent with
    | false => rfl
    | true => simp [Nat.ne_of_lt hi]
  refine ⟨?_, ?_, ?_, ?_, ?_, ?_⟩
  · intro i a ha
    rcases hpushed ha with ⟨-, rfl⟩ | ⟨-, ha⟩
    · exact hspan
    · exact h.standsIn i a ha
  · intro i a ha
    rcases hpushed ha with ⟨-, rfl⟩ | ⟨-, ha⟩
    · exact hstop
    · exact (h.stop_le i a ha).trans hplace
  · intro tag htag
    have hold : ∀ tag ∈ opened, tag.index < (spans.push span).size := by
      intro tag htag
      rw [Array.size_push]
      exact (h.opened_lt tag htag).trans (Nat.lt_succ_self _)
    cases hasContent with
    | false => exact hold tag htag
    | true =>
      rcases List.mem_cons.1 htag with rfl | htag
      · rw [Array.size_push]
        exact Nat.lt_succ_self _
      · exact hold tag htag
  · cases hasContent with
    | false => exact h.opened_sorted
    | true =>
      refine List.pairwise_cons.2 ⟨?_, h.opened_sorted⟩
      intro i hi
      obtain ⟨tag, htag, rfl⟩ := List.mem_map.1 hi
      exact h.opened_lt tag htag
  · intro i j a b hij ha hb
    rcases hpushed ha with ⟨rfl, -⟩ | ⟨hi, ha'⟩ <;> rcases hpushed hb with ⟨rfl, rfl⟩ | ⟨hj, hb'⟩
    · exact absurd hij (Nat.lt_irrefl _)
    · exact absurd hij (Nat.lt_asymm hj)
    · exact ((h.standsIn i a ha').startTagEnd_le_stop.trans (h.stop_le i a ha')).trans hstart
    · exact h.startTagEnd_le i j a b hij ha' hb'
  · intro i j a b hij ha hb hclosed
    rcases hpushed ha with ⟨rfl, -⟩ | ⟨hi, ha'⟩ <;> rcases hpushed hb with ⟨rfl, rfl⟩ | ⟨hj, hb'⟩
    · exact absurd hij (Nat.lt_irrefl _)
    · exact absurd hij (Nat.lt_asymm hj)
    · -- the new element starts after all elements that have ended
      exact .inr ((h.stop_le i a ha').trans hstart)
    · rw [hopened i hi] at hclosed
      rw [hopened j hj]
      exact h.nested i j a b hij ha' hb' hclosed

/-! ### Steps and runs -/

/-- A start tag ends elements at the place where it starts. -/
theorem closeImplied (h : WellNested text nesting place) (name : String) (hle : place ≤ stop)
    (hboundary : isBoundary text stop = true) (hsize : stop ≤ byteSize text) :
    WellNested text (nesting.closeImplied name stop) stop := by
  obtain ⟨inner, outer, hopened, heq⟩ := exists_closeImplied_eq nesting name stop
  have h' : WellNested text ⟨nesting.spans, inner ++ outer⟩ place := hopened ▸ h
  rw [heq]
  exact h'.endAt hle hboundary hsize

/-- An end tag ends elements at its two ends. -/
theorem close (h : WellNested text nesting place) (name : String) {extent : Extent}
    (hle : place ≤ extent.start) (hfits : extent.fits text = true) :
    WellNested text (nesting.close name extent) extent.stop := by
  obtain ⟨hstartStop, hsize, hstart, hstop⟩ := fits_iff_isBoundary.1 hfits
  obtain ⟨inner, last, outer, hopened, heq⟩ := exists_close_eq nesting name extent
  have h' : WellNested text ⟨nesting.spans, inner ++ (last ++ outer)⟩ place := hopened ▸ h
  rw [heq]
  exact (h'.endAt hle hstart (hstartStop.trans hsize)).endAt hstartStop hstop hsize

/-- The invariant is kept by every tag. -/
theorem add (h : WellNested text nesting place) {mark : Mark} (hmark : mark.StandsIn text)
    (hle : place ≤ mark.start) : WellNested text (nesting.add mark) mark.stop := by
  have hsize := hmark.start_le_stop.trans hmark.stop_le
  cases mark with
  | opening span hasContent =>
    obtain ⟨hspan, hstop⟩ := hmark
    -- elements end where the tag starts, and the new one starts at the same place
    have hclosed := h.closeImplied span.name hle hspan.start_boundary hsize
    exact hclosed.push hspan le_rfl hstop.le span.name hasContent
  | closing name extent => exact h.close name hle hmark.1

/-- The invariant is kept by tags that come one after the other before some place. -/
theorem foldl_add (h : WellNested text nesting place) {marks : List Mark} (hplace : place ≤ stop)
    (hmarks : ∀ mark ∈ marks, mark.StandsIn text ∧ place ≤ mark.start ∧ mark.stop ≤ stop)
    (hordered : marks.Pairwise (fun a b => a.stop ≤ b.start)) :
    WellNested text (marks.foldl Nesting.add nesting) stop := by
  induction marks generalizing nesting place with
  | nil => exact h.mono hplace
  | cons mark rest ih =>
    obtain ⟨hfirst, hrest⟩ := List.pairwise_cons.1 hordered
    obtain ⟨hmark, hstart, hstop⟩ := hmarks mark List.mem_cons_self
    refine ih (h.add hmark hstart) hstop ?_ hrest
    intro later hlater
    obtain ⟨hstands, -, hend⟩ := hmarks later (List.mem_cons_of_mem _ hlater)
    exact ⟨hstands, hfirst later hlater, hend⟩

/-- What is open at the end of the text ends there. -/
theorem finish (h : WellNested text nesting (byteSize text)) :
    WellNested text ⟨nesting.finish (byteSize text), []⟩ (byteSize text) := by
  have hend : isBoundary text (byteSize text) = true := by
    simpa using isBoundary_byteSize text []
  have h' : WellNested text ⟨nesting.spans, nesting.opened ++ []⟩ (byteSize text) := by
    rw [List.append_nil]
    exact h
  exact h'.endAt le_rfl hend le_rfl

end WellNested

/-- The elements of a text when all of them have ended. -/
theorem wellNested_scan (text : List Char) :
    WellNested text ⟨TagSpan.scan text, []⟩ (byteSize text) := by
  have hstart := standsIn_start text
  refine ((WellNested.empty text).foldl_add (Nat.zero_le _) ?_ (Mark.pairwise_scan hstart)).finish
  intro mark hmark
  obtain ⟨hstands, hle⟩ := Mark.standsIn_of_mem_scan hstart mark hmark
  exact ⟨hstands, hle, hstands.stop_le⟩

end Nesting

namespace TagSpan

/-- The spans of a text stand in it. -/
theorem standsIn_of_mem_scan {span : TagSpan} (h : span ∈ TagSpan.scan text) :
    span.StandsIn text := by
  obtain ⟨i, hi⟩ := Array.mem_iff_getElem?.1 h
  exact (Nesting.wellNested_scan text).standsIn i span hi

/-- The scan of any text keeps to the text and to the ends of its characters: the text can be cut
at every place it comes to, and in every tag it finds and every span it answers the names and values
are slices of the text. The start tags come one after the other, the values in one of them too, and
of any two elements the later one lies in the earlier one or after it. -/
theorem scan_wellNested (text : List Char) :
    (∀ cursor, Mark.Visits text cursor →
        slice? text ⟨cursor.offset, byteSize text⟩ = some cursor.rest) ∧
      (∀ mark ∈ Mark.scan ⟨0, text⟩, mark.StandsIn text) ∧
      (∀ span ∈ TagSpan.scan text, span.StandsIn text ∧
        (∀ entry ∈ span.attributes, ∀ value ∈ entry.value, span.nameEnd ≤ value.start ∧
          value.stop ≤ span.startTagEnd ∧ value.fits text = true) ∧
        (span.attributes.filterMap (·.value)).Pairwise (fun a b => a.stop ≤ b.start)) ∧
      (TagSpan.scan text).toList.Pairwise (fun a b =>
        a.startTagEnd ≤ b.start ∧ (b.stop ≤ a.stop ∨ a.stop ≤ b.start)) := by
  refine ⟨fun cursor h => h.standsIn.slice?_rest, ?_, ?_, ?_⟩
  · intro mark hmark
    exact (Mark.standsIn_of_mem_scan (standsIn_start text) mark hmark).1
  · intro span hspan
    have hstands := standsIn_of_mem_scan hspan
    exact ⟨hstands, hstands.attributes_in.value_mem, hstands.attributes_in.pairwise_values⟩
  · have h := Nesting.wellNested_scan text
    rw [List.pairwise_iff_getElem]
    intro i j hi hj hij
    have ha : (TagSpan.scan text)[i]? = some (TagSpan.scan text).toList[i] := by
      rw [← Array.getElem?_toList, List.getElem?_eq_getElem hi]
    have hb : (TagSpan.scan text)[j]? = some (TagSpan.scan text).toList[j] := by
      rw [← Array.getElem?_toList, List.getElem?_eq_getElem hj]
    refine ⟨h.startTagEnd_le i j _ _ hij ha hb, ?_⟩
    exact (h.nested i j _ _ hij ha hb (by simp)).imp_left And.right

/-- A list item whose last value no quote ends lies in an element that no end tag closes. -/
theorem scan_wellNested_open :
    let text := "<a b='>'>é<li c=\"".toList
    let outer := TagSpan.mk "a" 0 2 9 18 [⟨"b", some ⟨5, 8⟩⟩]
    let inner := TagSpan.mk "li" 11 14 18 18 [⟨"c", some ⟨17, 18⟩⟩]
    TagSpan.scan text = #[outer, inner] ∧
      (Mark.Visits text ⟨0, text⟩ ∧ slice? text ⟨0, byteSize text⟩ = some text) ∧
      (∀ mark ∈ Mark.scan ⟨0, text⟩, mark.StandsIn text) ∧
      (inner.StandsIn text ∧ inner.nameEnd ≤ 17 ∧ (⟨17, 18⟩ : Extent).fits text = true) ∧
      (outer.startTagEnd ≤ inner.start ∧ (inner.stop ≤ outer.stop ∨ outer.stop ≤ inner.start)) := by
  intro text outer inner
  have hscan : TagSpan.scan "<a b='>'>é<li c=\"".toList =
      #[⟨"a", 0, 2, 9, 18, [⟨"b", some ⟨5, 8⟩⟩]⟩,
        ⟨"li", 11, 14, 18, 18, [⟨"c", some ⟨17, 18⟩⟩]⟩] := by
    decide +kernel
  have hstart : Mark.Visits text ⟨0, text⟩ := .start
  obtain ⟨hvisits, hmarks, hspans, hordered⟩ := scan_wellNested text
  rw [show TagSpan.scan text = #[outer, inner] from hscan] at hspans hordered
  obtain ⟨hinner, hvalues, -⟩ := hspans inner (by simp)
  obtain ⟨hname, -, hfits⟩ := hvalues ⟨"c", some ⟨17, 18⟩⟩ (by simp [inner]) ⟨17, 18⟩ rfl
  exact ⟨hscan, ⟨hstart, hvisits _ hstart⟩, hmarks, ⟨hinner, hname, hfits⟩, by simpa using hordered⟩

end TagSpan

end ElementLint.Span
