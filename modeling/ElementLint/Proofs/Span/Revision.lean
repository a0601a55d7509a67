import ElementLint.Proofs.Span.Nesting
import ElementLint.Proofs.Span.Shift

/-!
# Spans of a changed text

A text is changed at one of its elements: the places after it are moved, the span of the element
itself is another one, and some elements are added right after its start tag. If the tags behind
the change are the old ones with their places moved, then so are all other spans
(`Nesting.Follows.finish`): the scan of the changed text goes along with that of the old one, with
the same open elements at every tag (`Nesting.Follows`).

An element that is open has no end yet. What stands in its place until it ends may differ between
the two scans.
-/

namespace ElementLint.Span

open Text

/-- What the spans of a text see of a change of the text. -/
structure Revision where
  /-- The number of the element at which the text is changed. -/
  index : Nat
  /-- The new span of that element. -/
  own : TagSpan → TagSpan
  /-- The elements that are added after its start tag. -/
  added : List TagSpan
  /-- Where a place is afterwards. -/
  place : Nat → Nat

namespace Revision

variable (revision : Revision)

/-- The number of an old element in the changed text. -/
def number (i : Nat) : Nat :=
  if i ≤ revision.index then i else i + revision.added.length

/-- The span of an old element in the changed text. -/
def span (i : Nat) (span : TagSpan) : TagSpan :=
  if i = revision.index then revision.own span else span.mapPlaces revision.place

/-- An open element under its new number. -/
def openTag (tag : OpenTag) : OpenTag :=
  { tag with index := revision.number tag.index }

variable {revision}

theorem number_injective : Function.Injective revision.number := by
  intro i j h
  unfold number at h
  split at h <;> split at h <;> omega

theorem number_succ {i : Nat} (h : revision.index < i) :
    revision.number (i + 1) = revision.number i + 1 := by
  rw [number, number, if_neg (by omega), if_neg (by omega)]
  omega

theorem span_of_ne {i : Nat} (h : i ≠ revision.index) (span : TagSpan) :
    revision.span i span = span.mapPlaces revision.place :=
  if_neg h

theorem mem_index_openTag {i : Nat} {tags : List OpenTag} :
    revision.number i ∈ (tags.map revision.openTag).map (·.index) ↔ i ∈ tags.map (·.index) := by
  have hmap : (tags.map revision.openTag).map (·.index) =
      (tags.map (·.index)).map revision.number := by
    simp [openTag]
  rw [hmap, List.mem_map]
  constructor
  · rintro ⟨j, hj, heq⟩
    rwa [← number_injective heq]
  · exact fun hi => ⟨i, hi, rfl⟩

/-- The added elements have numbers of their own. -/
theorem index_openTag_ne {j : Nat} {tags : List OpenTag} (hj : revision.index < j)
    (hle : j ≤ revision.index + revision.added.length) :
    j ∉ (tags.map revision.openTag).map (·.index) := by
  intro hmem
  rw [List.map_map, List.mem_map] at hmem
  obtain ⟨tag, -, htag⟩ := hmem
  have htag : revision.number tag.index = j := htag
  unfold number at htag
  split at htag <;> omega

end Revision

namespace Nesting

/-- The scan of the changed text has come as far as that of the old one. -/
structure Follows (revision : Revision) (old new : Nesting) : Prop where
  /-- The element at which the text is changed has been found. -/
  index_lt : revision.index < old.spans.size
  size_eq : new.spans.size = revision.number old.spans.size
  opened_eq : new.opened = old.opened.map revision.openTag
  /-- The spans are those of the old elements up to the ends of the open ones. -/
  span_eq : ∀ (i : Nat) (span : TagSpan), old.spans[i]? = some span →
    ∃ stop, new.spans[revision.number i]? = some { revision.span i span with stop } ∧
      (i ∉ old.opened.map (·.index) → stop = (revision.span i span).stop)
  added_eq : ∀ (j : Nat), j < revision.added.length →
    new.spans[revision.index + 1 + j]? = revision.added[j]?
  /-- The changed element ends where it did if it has not ended before the revision. -/
  own_stop : revision.index ∈ old.opened.map (·.index) → ∀ (span : TagSpan) (stop : Nat),
    revision.own { span with stop } = { revision.own span with stop := revision.place stop }

namespace Follows

variable {revision : Revision} {old new : Nesting} {spans spans' : Array TagSpan}
  {ended outer opened opened' : List OpenTag}

/-- The scan of the changed text goes along with the old one from the changed element on, if what
has ended before it is not moved. -/
theorem start {text : List Char} {place : Nat} {hasContent : Bool} {span span' : TagSpan}
    (name : String) (h : WellNested text ⟨spans, opened⟩ place)
    (hplace : ∀ other ≤ place, revision.place other = other)
    (hindex : spans.size = revision.index)
    (hspan : ∃ stop, span' = { revision.own span with stop } ∧
      (hasContent = false → stop = (revision.own span).stop))
    (hown : hasContent = true → ∀ (span : TagSpan) (stop : Nat),
      revision.own { span with stop } = { revision.own span with stop := revision.place stop }) :
    Follows revision
      ⟨spans.push span, if hasContent then ⟨spans.size, name⟩ :: opened else opened⟩
      ⟨spans.push span' ++ revision.added.toArray,
        if hasContent then ⟨spans.size, name⟩ :: opened else opened⟩ where
  index_lt := by
    rw [Array.size_push, hindex]
    exact Nat.lt_succ_self _
  size_eq := by
    have hnumber : revision.number (spans.size + 1) = spans.size + 1 + revision.added.length :=
      if_neg (by omega)
    rw [Array.size_append, Array.size_push, Array.size_push]
    exact hnumber.symm
  opened_eq := by
    -- the open elements stand before the added ones
    have hlow : ∀ tag : OpenTag, tag.index ≤ revision.index → revision.openTag tag = tag := by
      intro tag hle
      have hnumber : revision.number tag.index = tag.index := if_pos hle
      rw [Revision.openTag, hnumber]
    have hopened : opened.map revision.openTag = opened := by
      refine (List.map_congr_left fun tag htag => hlow tag ?_).trans (List.map_id opened)
      exact hindex ▸ (h.opened_lt tag htag).le
    cases hasContent with
    | false => exact hopened.symm
    | true =>
      rw [if_pos rfl, List.map_cons, hopened, hlow _ hindex.le]
  span_eq := by
    intro i a ha
    rw [Array.getElem?_push] at ha
    split at ha
    · next hi =>
      obtain rfl := Option.some.inj ha
      have hnumber : revision.number i = i := if_pos (hi.trans hindex).le
      have hown : revision.span i span = revision.own span := if_pos (hi.trans hindex)
      obtain ⟨stop, hstop, hclosed⟩ := hspan
      refine ⟨stop, ?_, fun hnot => ?_⟩
      · rw [hnumber, hown, Array.getElem?_append_left (by rw [Array.size_push]; omega), hi,
          Array.getElem?_push_size, hstop]
      · rw [hown]
        refine hclosed (Bool.eq_false_iff.2 fun hopen => hnot ?_)
        rw [if_pos hopen, hi]
        exact List.mem_cons_self
    · next hi =>
      have hlt := (Array.getElem?_eq_some_iff.1 ha).1
      have hnumber : revision.number i = i := if_pos (by omega)
      -- the element lies before the change as far as it has ended
      have hsame : revision.span i a = a := by
        have hle := h.stop_le i a ha
        rw [Revision.span_of_ne (by omega), (h.standsIn i a ha).mapPlaces_congr
          (g := fun other => other) fun other _ hother => hplace other (hother.trans hle)]
        exact a.mapPlaces_id
      refine ⟨a.stop, ?_, fun _ => by rw [hsame]⟩
      rw [hnumber, hsame, Array.getElem?_append_left (by rw [Array.size_push]; omega),
        Array.getElem?_push, if_neg hi, ha]
  added_eq := by
    intro j hj
    rw [Array.getElem?_append_right (by rw [Array.size_push]; omega), Array.size_push, hindex,
      Nat.add_sub_cancel_left, List.getElem?_toArray]
  own_stop := by
    intro hopen
    cases hasContent with
    | true => exact hown rfl
    | false =>
      obtain ⟨tag, htag, heq⟩ := List.mem_map.1 hopen
      have hlt : tag.index < spans.size := h.opened_lt tag htag
      omega

/-- Moving the end of a span that is open moves the end of its new span. -/
theorem span_stop (h : Follows revision old new) {i : Nat} (hi : i ∈ old.opened.map (·.index))
    (span : TagSpan) (stop : Nat) :
    revision.span i { span with stop } =
      { revision.span i span with stop := revision.place stop } := by
  by_cases hindex : i = revision.index
  · subst hindex
    rw [Revision.span, Revision.span, if_pos rfl, if_pos rfl]
    exact h.own_stop hi span stop
  · rw [Revision.span_of_ne hindex, Revision.span_of_ne hindex]
    rfl

/-- The same elements end in both texts. -/
theorem endAt (h : Follows revision ⟨spans, ended ++ outer⟩ new) (stop : Nat) :
    Follows revision ⟨Nesting.endAt spans ended stop, outer⟩
      ⟨Nesting.endAt new.spans (ended.map revision.openTag) (revision.place stop),
        outer.map revision.openTag⟩ where
  index_lt := by
    rw [size_endAt]
    exact h.index_lt
  size_eq := by
    rw [size_endAt, size_endAt]
    exact h.size_eq
  opened_eq := rfl
  span_eq := by
    intro i span hspan
    rw [getElem?_endAt] at hspan ⊢
    by_cases hended : i ∈ ended.map (·.index)
    · -- an element that ends now has the same end in both
      rw [if_pos hended] at hspan
      obtain ⟨before, hbefore, rfl⟩ := Option.map_eq_some_iff.1 hspan
      obtain ⟨stop', hstop', -⟩ := h.span_eq i before hbefore
      have hopen : i ∈ (ended ++ outer).map (·.index) := by
        rw [List.map_append]
        exact List.mem_append_left _ hended
      have hspan := h.span_stop hopen before stop
      rw [if_pos (Revision.mem_index_openTag.2 hended), hstop']
      exact ⟨revision.place stop, by rw [hspan]; rfl, fun _ => by rw [hspan]⟩
    · rw [if_neg hended] at hspan
      rw [if_neg (mt Revision.mem_index_openTag.1 hended)]
      obtain ⟨stop', hstop', hclosed⟩ := h.span_eq i span hspan
      refine ⟨stop', hstop', fun houter => hclosed ?_⟩
      rw [List.map_append, List.mem_append]
      exact not_or.2 ⟨hended, houter⟩
  added_eq := by
    intro j hj
    rw [getElem?_endAt, if_neg (Revision.index_openTag_ne (by omega) (by omega))]
    exact h.added_eq j hj
  own_stop := by
    intro hindex
    refine h.own_stop ?_
    rw [List.map_append]
    exact List.mem_append_right _ hindex

/-- A new element is moved. -/
theorem push (h : Follows revision ⟨spans, opened⟩ ⟨spans', opened'⟩) (span : TagSpan)
    (name : String) (hasContent : Bool) :
    Follows revision
      ⟨spans.push span, if hasContent then ⟨spans.size, name⟩ :: opened else opened⟩
      ⟨spans'.push (span.mapPlaces revision.place),
        if hasContent then ⟨spans'.size, name⟩ :: opened' else opened'⟩ where
  index_lt := by
    rw [Array.size_push]
    exact Nat.lt_succ_of_lt h.index_lt
  size_eq := by
    rw [Array.size_push, Array.size_push, Revision.number_succ h.index_lt]
    exact congrArg (· + 1) h.size_eq
  opened_eq := by
    have hopened : opened' = opened.map revision.openTag := h.opened_eq
    have hsize : spans'.size = revision.number spans.size := h.size_eq
    rw [hopened, hsize]
    cases hasContent <;> rfl
  span_eq := by
    have hsize : spans'.size = revision.number spans.size := h.size_eq
    have hindex : revision.index < spans.size := h.index_lt
    intro i a ha
    -- the new span is the last one on both sides; the others keep their numbers
    by_cases hi : i = spans.size
    · subst hi
      rw [Array.getElem?_push_size] at ha
      obtain rfl := Option.some.inj ha
      rw [← hsize, Array.getElem?_push_size, Revision.span_of_ne (Nat.ne_of_gt hindex)]
      exact ⟨_, rfl, fun _ => rfl⟩
    · have hi' : revision.number i ≠ spans'.size := by
        rw [hsize]
        exact fun heq => hi (Revision.number_injective heq)
      rw [Array.getElem?_push, if_neg hi] at ha
      rw [Array.getElem?_push, if_neg hi']
      obtain ⟨stop, hstop, hclosed⟩ := h.span_eq i a ha
      refine ⟨stop, hstop, fun hnot => hclosed fun hopen => hnot ?_⟩
      cases hasContent with
      | false => exact hopen
      | true => exact List.mem_cons_of_mem _ hopen
  added_eq := by
    have hsize : spans'.size = revision.number spans.size := h.size_eq
    have hindex : revision.index < spans.size := h.index_lt
    intro j hj
    -- the added spans come before the moved ones, so the new span is none of them
    have hne : revision.index + 1 + j ≠ spans'.size := by
      rw [hsize, Revision.number, if_neg (by omega)]
      omega
    rw [Array.getElem?_push, if_neg hne]
    exact h.added_eq j hj
  own_stop := by
    intro hopen
    refine h.own_stop ?_
    have hne : revision.index ≠ spans.size := Nat.ne_of_lt h.index_lt
    cases hasContent with
    | false => exact hopen
    | true => simpa [hne] using hopen

/-- Which elements a start tag ends depends on the names of the open ones only. -/
theorem splitImplied_map (closes bounds : List String) (opened : List OpenTag) :
    splitImplied closes bounds (opened.map revision.openTag) =
      (splitImplied closes bounds opened).map fun (inner, tag, outer) =>
        (inner.map revision.openTag, revision.openTag tag, outer.map revision.openTag) := by
  have hname : ∀ tag : OpenTag, (revision.openTag tag).name = tag.name := fun _ => rfl
  have hinner : (if bounds.isEmpty then [] else (opened.map revision.openTag).takeWhile
      (fun tag => !bounds.contains tag.name && !closes.contains tag.name)) =
        (if bounds.isEmpty then [] else opened.takeWhile
          (fun tag => !bounds.contains tag.name && !closes.contains tag.name)).map
            revision.openTag := by
    split
    · rfl
    · rw [List.takeWhile_map]
      rfl
  unfold splitImplied
  dsimp only
  rw [hinner, List.length_map, ← List.map_drop]
  cases opened.drop _ with
  | nil => rfl
  | cons tag outer =>
    rw [List.map_cons]
    dsimp only
    rw [hname]
    split <;> rfl

/-- A start tag ends the same elements in both texts. -/
theorem closeImplied (h : Follows revision old new) (name : String) (stop : Nat) :
    Follows revision (old.closeImplied name stop)
      (new.closeImplied name (revision.place stop)) := by
  unfold Nesting.closeImplied
  cases impliedEnd name with
  | none => exact h
  | some names =>
    obtain ⟨closes, bounds⟩ := names
    dsimp only
    rw [h.opened_eq, splitImplied_map]
    cases hsplit : splitImplied closes bounds old.opened with
    | none => exact h
    | some parts =>
      obtain ⟨inner, tag, outer⟩ := parts
      have h' : Follows revision ⟨old.spans, (inner ++ [tag]) ++ outer⟩ new := by
        rw [← append_of_splitImplied_eq_some hsplit]
        exact h
      have hend := h'.endAt stop
      rw [List.map_append] at hend
      exact hend

/-- An end tag ends the same elements in both texts. -/
theorem close (h : Follows revision old new) (name : String) (extent : Extent) :
    Follows revision (old.close name extent)
      (new.close name (extent.mapPlaces revision.place)) := by
  have hinner : (old.opened.map revision.openTag).takeWhile (·.name != name) =
      (old.opened.takeWhile (·.name != name)).map revision.openTag := by
    rw [List.takeWhile_map]
    rfl
  unfold Nesting.close
  dsimp only
  rw [h.opened_eq, hinner, List.length_map, ← List.map_drop]
  cases hdrop : old.opened.drop (old.opened.takeWhile (·.name != name)).length with
  | nil => exact h
  | cons tag outer =>
    have h' : Follows revision
        ⟨old.spans, old.opened.takeWhile (·.name != name) ++ ([tag] ++ outer)⟩ new := by
      rw [← append_of_drop_takeWhile_eq_cons hdrop]
      exact h
    exact (h'.endAt extent.start).endAt extent.stop

/-- Every tag that is moved does the same in both texts. -/
theorem add (h : Follows revision old new) (mark : Mark) :
    Follows revision (old.add mark) (new.add (mark.mapPlaces revision.place)) := by
  cases mark with
  | opening span hasContent =>
    exact (h.closeImplied span.name span.start).push span span.name hasContent
  | closing name extent => exact h.close name extent

theorem foldl_add (h : Follows revision old new) (marks : List Mark) :
    Follows revision (marks.foldl Nesting.add old)
      ((marks.map (·.mapPlaces revision.place)).foldl Nesting.add new) := by
  induction marks generalizing old new with
  | nil => exact h
  | cons mark rest ih => exact ih (h.add mark)

/-- At the end of the texts all elements have ended. -/
theorem finish (h : Follows revision old new) (size : Nat) :
    Follows revision ⟨old.finish size, []⟩ ⟨new.finish (revision.place size), []⟩ := by
  have h' : Follows revision ⟨old.spans, old.opened ++ []⟩ new := by
    rw [List.append_nil]
    exact h
  rw [Nesting.finish, Nesting.finish, h.opened_eq]
  exact h'.endAt size

/-- When all elements have ended, the spans are the moved ones and those of the change. -/
theorem toList_eq (h : Follows revision ⟨spans, []⟩ ⟨spans', []⟩) {before after : List TagSpan}
    {span : TagSpan} (hspans : spans.toList = before ++ span :: after)
    (hindex : before.length = revision.index) :
    spans'.toList = before.map (·.mapPlaces revision.place) ++
      revision.own span :: (revision.added ++ after.map (·.mapPlaces revision.place)) := by
  have hold : ∀ i, spans'[revision.number i]? = spans[i]?.map (revision.span i) := by
    intro i
    cases hi : spans[i]? with
    | some span =>
      obtain ⟨stop, hstop, hclosed⟩ := h.span_eq i span hi
      rw [hstop, hclosed (by simp)]
      rfl
    | none =>
      have hsize : spans'.size = revision.number spans.size := h.size_eq
      have hlt : revision.index < spans.size := h.index_lt
      have hle := Array.getElem?_eq_none_iff.1 hi
      rw [Option.map_none, Array.getElem?_eq_none_iff, hsize, Revision.number, Revision.number,
        if_neg (by omega), if_neg (by omega)]
      omega
  have hget : ∀ i : Nat, spans[i]? = (before ++ span :: after)[i]? := by
    intro i
    rw [← hspans, Array.getElem?_toList]
  apply List.ext_getElem?
  intro j
  rw [Array.getElem?_toList]
  rcases Nat.lt_trichotomy j before.length with hj | rfl | hj
  · -- an element before the changed one
    have hnumber : revision.number j = j := if_pos (by omega)
    rw [← hnumber, hold, hget, hnumber, List.getElem?_append_left hj,
      List.getElem?_append_left (by simpa using hj), List.getElem?_map]
    refine Option.map_congr fun span _ => ?_
    exact Revision.span_of_ne (by omega) span
  · have hnumber : revision.number before.length = before.length := if_pos hindex.le
    have hown : revision.span before.length span = revision.own span := if_pos hindex
    have hnew := hold before.length
    rw [hnumber, hget, List.getElem?_append_right le_rfl, Nat.sub_self] at hnew
    rw [hnew, List.getElem?_append_right (by simp)]
    simp [hown]
  · obtain ⟨m, rfl⟩ := Nat.exists_eq_add_of_lt hj
    rw [List.getElem?_append_right (by simp; omega), List.length_map,
      show before.length + m + 1 - before.length = m + 1 by omega, List.getElem?_cons_succ]
    by_cases hm : m < revision.added.length
    · have hadded := h.added_eq m hm
      rw [← hindex, Nat.add_right_comm] at hadded
      rw [List.getElem?_append_left hm]
      exact hadded
    · -- an element after the added ones
      obtain ⟨m, rfl⟩ := Nat.exists_eq_add_of_le (Nat.le_of_not_lt hm)
      have hnumber : revision.number (before.length + 1 + m) =
          before.length + (revision.added.length + m) + 1 := by
        rw [Revision.number, if_neg (by omega)]
        omega
      rw [← hnumber, hold, hget, List.getElem?_append_right (by omega),
        show before.length + 1 + m - before.length = m + 1 by omega, List.getElem?_cons_succ,
        List.getElem?_append_right (Nat.le_add_right _ _), Nat.add_sub_cancel_left,
        List.getElem?_map]
      refine Option.map_congr fun span _ => ?_
      exact Revision.span_of_ne (by omega) span

end Follows

end Nesting

end ElementLint.Span
