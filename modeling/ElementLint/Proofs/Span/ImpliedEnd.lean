import ElementLint.Proofs.Span.Rescan

/-!
# Elements that are ended by start tags

The start tag of a list item, of an option or of a part of a table ends elements whose end tags are
left out, but none outside of the next bound (`impliedEnd`). It ends only the innermost of the
elements that it could end. This is enough for most of the rules: what they end is open only once
inside of a bound. It is not for a row, which ends an open cell and not the row around it, and for a
group of options, which ends an open option and not the group around it (`Nesting.Spares`).

What may be open in what is the invariant `Nesting.AllClear` of the open elements, one step of which
is `Nesting.clears_of_ended`. To the ends of the spans it is carried over by `Nesting.Continues`: a
tag changes the end of no element that has ended before.

The main result is `TagSpan.scan_impliedEnd`.
-/

namespace ElementLint.Span

open Text Cursor

variable {text : List Char} {name ended : String} {closes bounds : List String}

/-! ### The rules -/

/-- The start tags that look for what they end as far as some bound. -/
theorem mem_of_impliedEnd_eq_some (hrule : impliedEnd name = some (closes, bounds))
    (hbounds : bounds ≠ []) :
    name ∈ ["li", "dt", "dd", "option", "optgroup", "tr", "td", "th"] := by
  by_contra hname
  simp only [List.mem_cons, List.not_mem_nil, or_false, not_or] at hname
  unfold impliedEnd at hrule
  split at hrule <;> simp_all

/-- An element that a start tag ends follows the same rule itself, if it is neither a cell that ends
with its row nor an option that ends with its group. -/
theorem impliedEnd_of_mem_closes (hrule : impliedEnd name = some (closes, bounds))
    (hbounds : bounds ≠ []) (hended : ended ∈ closes) :
    (impliedEnd ended = some (closes, bounds) ∧ (ended = "tr" ↔ name = "tr") ∧
        (ended = "optgroup" ↔ name = "optgroup")) ∨
      (name = "tr" ∧ (ended = "td" ∨ ended = "th")) ∨
      (name = "optgroup" ∧ ended = "option") := by
  have hname := mem_of_impliedEnd_eq_some hrule hbounds
  simp only [List.mem_cons, List.not_mem_nil, or_false] at hname
  rcases hname with rfl | rfl | rfl | rfl | rfl | rfl | rfl | rfl <;>
  · obtain ⟨rfl, rfl⟩ := Prod.mk.inj (Option.some.inj hrule)
    revert ended
    decide

namespace Nesting

variable {nesting before after : Nesting} {opened inner outer : List OpenTag} {tag bound : OpenTag}
  {spans : Array TagSpan} {place stop : Nat}

/-! ### What is open -/

/-- What a start tag may leave open although it could end it, with `inner` open inside of it. -/
def Spares (name spared : String) (inner : List OpenTag) : Prop :=
  (name = "tr" ∧ spared = "tr") ∨
    (name = "optgroup" ∧ (spared = "optgroup" ∨ ∃ tag ∈ inner, tag.name = "datalist"))

/-- Between an element and all open elements that its start tag could end stand bounds, but for what
the start tag spares. -/
def Clears (name : String) (opened : List OpenTag) : Prop :=
  ∀ closes bounds inner tag outer, impliedEnd name = some (closes, bounds) → bounds ≠ [] →
    opened = inner ++ tag :: outer → tag.name ∈ closes →
      (∃ bound ∈ inner, bound.name ∈ bounds) ∨ Spares name tag.name inner

/-- Every open element is cleared of what is open around it. -/
def AllClear (opened : List OpenTag) : Prop :=
  ∀ inner tag outer, opened = inner ++ tag :: outer → Clears tag.name outer

theorem Spares.append {spared : String} (h : Spares name spared inner) (passed : List OpenTag) :
    Spares name spared (passed ++ inner) := by
  refine h.imp_right (And.imp_right (Or.imp_right ?_))
  rintro ⟨tag, htag, hname⟩
  exact ⟨tag, List.mem_append_right _ htag, hname⟩

theorem AllClear.nil : AllClear [] := by
  intro inner tag outer h
  simp at h

theorem AllClear.cons (h : AllClear opened) (hclears : Clears tag.name opened) :
    AllClear (tag :: opened) := by
  intro inner other outer hopened
  cases inner with
  | nil =>
    obtain ⟨rfl, rfl⟩ := List.cons.inj hopened
    exact hclears
  | cons first inner => exact h inner other outer (List.cons.inj hopened).2

theorem AllClear.of_append (h : AllClear (inner ++ outer)) : AllClear outer := by
  intro between tag rest houter
  exact h (inner ++ between) tag rest (by rw [houter, List.append_assoc])

/-- An open element is cleared of what is open further outside. -/
theorem AllClear.of_mem (h : AllClear (inner ++ tag :: outer)) (hmem : bound ∈ inner)
    (hrule : impliedEnd bound.name = some (closes, bounds)) (hbounds : bounds ≠ [])
    (htag : tag.name ∈ closes) :
    (∃ other ∈ inner, other.name ∈ bounds) ∨ Spares bound.name tag.name inner := by
  obtain ⟨passed, between, rfl⟩ := List.append_of_mem hmem
  have hclears := h passed bound (between ++ tag :: outer) (by simp)
  rcases hclears _ _ between tag outer hrule hbounds rfl htag with ⟨other, hother, hname⟩ | hspares
  · exact .inl ⟨other, by simp [hother], hname⟩
  · right
    simpa using hspares.append (passed ++ [bound])

/-- If a start tag ends some element, then what was open around that is what may be open around the
new element. -/
theorem clears_of_ended (hrule : impliedEnd name = some (closes, bounds)) (hbounds : bounds ≠ [])
    (hended : ended ∈ closes) (hclears : Clears ended outer) (hall : AllClear outer) :
    Clears name outer := by
  rintro closes' bounds' inner tag rest hrule' - rfl htag
  obtain ⟨rfl, rfl⟩ : closes = closes' ∧ bounds = bounds' := by simpa [hrule] using hrule'
  rcases impliedEnd_of_mem_closes hrule hbounds hended with
    ⟨hsame, hrow, hgroup⟩ | ⟨rfl, hcell⟩ | ⟨rfl, rfl⟩
  · -- the new element takes the place of one with the same rule
    simpa only [Spares, hrow, hgroup] using hclears _ _ inner tag rest hsame hbounds rfl htag
  · -- a row in place of a cell: around another cell stands a row, and that is cleared of it
    obtain ⟨rfl, rfl⟩ := Prod.mk.inj (Option.some.inj hrule)
    by_cases hrow : tag.name = "tr"
    · exact .inr (.inl ⟨rfl, hrow⟩)
    have hcells : impliedEnd ended = some (["td", "th"], ["tr", "table"]) := by
      rcases hcell with rfl | rfl <;> rfl
    have hother : tag.name ∈ ["td", "th"] := by simpa [hrow] using htag
    rcases hclears _ _ inner tag rest hcells (by decide) rfl hother with
      ⟨bound, hmem, hbound⟩ | hspares
    · simp only [List.mem_cons, List.not_mem_nil, or_false] at hbound
      rcases hbound with hbound | hbound
      · simpa only [hbound] using hall.of_mem hmem (hbound ▸ hrule) hbounds htag
      · exact .inl ⟨bound, hmem, by simp [hbound]⟩
    · rcases hcell with rfl | rfl <;> simp [Spares] at hspares
  · -- a group in place of an option, in the same way
    obtain ⟨rfl, rfl⟩ := Prod.mk.inj (Option.some.inj hrule)
    by_cases hgroup : tag.name = "optgroup"
    · exact .inr (.inr ⟨rfl, .inl hgroup⟩)
    have hother : tag.name ∈ ["option"] := by simpa [hgroup] using htag
    rcases hclears _ _ inner tag rest rfl (by decide) rfl hother with
      ⟨bound, hmem, hbound⟩ | hspares
    · simp only [List.mem_cons, List.not_mem_nil, or_false] at hbound
      rcases hbound with hbound | hbound | hbound
      · exact .inl ⟨bound, hmem, by simp [hbound]⟩
      · exact .inr (.inr ⟨rfl, .inr ⟨bound, hmem, hbound⟩⟩)
      · simpa only [hbound] using hall.of_mem hmem (hbound ▸ hrule) hbounds htag
    · simp [Spares] at hspares

/-! ### What a tag ends -/

theorem mem_closes_of_splitImplied_eq_some
    (h : splitImplied closes bounds opened = some (inner, tag, outer)) : tag.name ∈ closes := by
  unfold splitImplied at h
  dsimp only at h
  split at h
  · split at h
    · next hcontains =>
      obtain ⟨-, rfl, -⟩ := by simpa using h
      simpa using hcontains
    · contradiction
  · contradiction

/-- A start tag that ends nothing finds a bound before the first element that it could end. -/
theorem exists_bound_of_splitImplied_eq_none (hbounds : bounds ≠ [])
    (h : splitImplied closes bounds (inner ++ tag :: outer) = none) (htag : tag.name ∈ closes) :
    ∃ bound ∈ inner, bound.name ∈ bounds := by
  unfold splitImplied at h
  dsimp only at h
  rw [if_neg (by simpa using hbounds)] at h
  set passes : OpenTag → Bool :=
    fun tag => !bounds.contains tag.name && !closes.contains tag.name
  have hpasses : passes tag = false := by simp [passes, htag]
  have hdrop (opened : List OpenTag) :
      opened.drop (opened.takeWhile passes).length = opened.dropWhile passes :=
    List.append_cancel_left ((List.prefix_iff_eq_append.1 (List.takeWhile_prefix passes)).trans
      List.takeWhile_append_dropWhile.symm)
  rw [hdrop, List.dropWhile_append] at h
  -- the search stops at the first bound or element that it could end, `tag` at the latest
  cases hinner : inner.dropWhile passes with
  | nil => simp [hinner, hpasses, htag] at h
  | cons bound rest =>
    have hbound : bound.name ∉ closes := by simpa [hinner] using h
    have hmem : bound ∈ inner := by
      refine (List.dropWhile_sublist passes).subset ?_
      rw [hinner]
      exact List.mem_cons_self
    have hnot : passes bound = false := by
      have hhead := List.head_dropWhile_not passes (l := inner) (by simp [hinner])
      simpa [hinner] using hhead
    exact ⟨bound, hmem, by simpa [passes, hbound] using hnot⟩

/-- After a start tag with bounds has ended what it ends, it is cleared of all that is still open;
if it spares something, then it has ended an element inside of that. -/
theorem AllClear.closeImplied (h : AllClear nesting.opened)
    (hrule : impliedEnd name = some (closes, bounds)) (hbounds : bounds ≠ [])
    (hopened : (nesting.closeImplied name place).opened = inner ++ tag :: outer)
    (htag : tag.name ∈ closes) :
    (∃ bound ∈ inner, bound.name ∈ bounds) ∨
      (Spares name tag.name inner ∧ ∃ passed last, last.name ∈ closes ∧
        nesting.opened = (passed ++ [last]) ++ (inner ++ tag :: outer) ∧
        nesting.closeImplied name place =
          ⟨endAt nesting.spans (passed ++ [last]) place, inner ++ tag :: outer⟩) := by
  unfold Nesting.closeImplied at hopened ⊢
  rw [hrule] at hopened ⊢
  dsimp only at hopened ⊢
  cases hsplit : splitImplied closes bounds nesting.opened with
  | none =>
    rw [hsplit] at hopened
    rw [show nesting.opened = inner ++ tag :: outer from hopened] at hsplit
    exact .inl (exists_bound_of_splitImplied_eq_none hbounds hsplit htag)
  | some found =>
    -- what is still open was open around the element that ends
    obtain ⟨passed, last, rest⟩ := found
    have hlast := mem_closes_of_splitImplied_eq_some hsplit
    have happend := append_of_splitImplied_eq_some hsplit
    obtain rfl : rest = inner ++ tag :: outer := by
      rw [hsplit] at hopened
      exact hopened
    rw [happend] at h
    have hclears := clears_of_ended hrule hbounds hlast (h passed last _ (by simp)) h.of_append
    exact (hclears _ _ inner tag outer hrule hbounds rfl htag).imp_right
      fun hspares => ⟨hspares, passed, last, hlast, happend, rfl⟩

/-! ### The run of the scan -/

/-- The open elements are named as their spans are, and each is cleared of those around it. -/
structure Consistent (nesting : Nesting) : Prop where
  named : ∀ tag ∈ nesting.opened, ∃ span, nesting.spans[tag.index]? = some span ∧
    span.name = tag.name
  allClear : AllClear nesting.opened

namespace Consistent

theorem empty : Consistent .empty where
  named := by simp [Nesting.empty]
  allClear := .nil

theorem endAt (h : Consistent ⟨spans, inner ++ outer⟩) (stop : Nat) :
    Consistent ⟨Nesting.endAt spans inner stop, outer⟩ where
  named := by
    intro tag htag
    obtain ⟨span, hspan, hname⟩ := h.named tag (List.mem_append_right _ htag)
    rw [getElem?_endAt, show spans[tag.index]? = some span from hspan]
    split
    · exact ⟨{ span with stop }, rfl, hname⟩
    · exact ⟨span, rfl, hname⟩
  allClear := by
    have hall : AllClear (inner ++ outer) := h.allClear
    exact hall.of_append

theorem push {span : TagSpan} {hasContent : Bool} (h : Consistent ⟨spans, opened⟩)
    (hclears : Clears span.name opened) :
    Consistent ⟨spans.push span,
      if hasContent then ⟨spans.size, span.name⟩ :: opened else opened⟩ := by
  -- the spans of what was open before keep their numbers
  have hold : ∀ tag ∈ opened, ∃ found, (spans.push span)[tag.index]? = some found ∧
      found.name = tag.name := by
    intro tag htag
    obtain ⟨found, hfound, hname⟩ := h.named tag htag
    refine ⟨found, ?_, hname⟩
    rw [Array.getElem?_push, if_neg (Array.getElem?_eq_some_iff.1 hfound).1.ne]
    exact hfound
  cases hasContent with
  | false => exact ⟨hold, h.allClear⟩
  | true =>
    refine ⟨?_, ?_⟩
    · intro tag htag
      rcases List.mem_cons.1 htag with rfl | htag
      · exact ⟨span, Array.getElem?_push_size, rfl⟩
      · exact hold tag htag
    · show AllClear (⟨spans.size, span.name⟩ :: opened)
      exact AllClear.cons h.allClear hclears

theorem closeImplied (h : Consistent nesting) (name : String) (place : Nat) :
    Consistent (nesting.closeImplied name place) := by
  obtain ⟨inner, outer, hopened, heq⟩ := exists_closeImplied_eq nesting name place
  rw [heq]
  exact endAt (hopened ▸ h) place

theorem close (h : Consistent nesting) (name : String) (extent : Extent) :
    Consistent (nesting.close name extent) := by
  obtain ⟨inner, last, outer, hopened, heq⟩ := exists_close_eq nesting name extent
  rw [heq]
  exact (endAt (hopened ▸ h) extent.start).endAt extent.stop

/-- A start tag clears the new element of all that it leaves open. -/
theorem add (h : Consistent nesting) (mark : Mark) : Consistent (nesting.add mark) := by
  cases mark with
  | opening span hasContent =>
    refine (h.closeImplied span.name span.start).push ?_
    intro closes bounds inner tag outer hrule hbounds hopened htag
    exact (h.allClear.closeImplied hrule hbounds hopened htag).imp_right And.left
  | closing name extent => exact h.close name extent

theorem foldl_add (h : Consistent nesting) (marks : List Mark) :
    Consistent (marks.foldl Nesting.add nesting) := by
  induction marks generalizing nesting with
  | nil => exact h
  | cons mark rest ih => exact ih (h.add mark)

end Consistent

/-- Between two states of the scan only elements end that were open, and not before a place. -/
structure Continues (place : Nat) (before after : Nesting) : Prop where
  kept : ∀ (i : Nat) (span : TagSpan), before.spans[i]? = some span →
    ∃ stop, after.spans[i]? = some { span with stop } ∧
      (i ∉ before.opened.map (·.index) → stop = span.stop) ∧
      (i ∈ before.opened.map (·.index) → i ∈ after.opened.map (·.index) ∨ place ≤ stop)
  /-- What has ended is not opened again. -/
  closed : ∀ i < before.spans.size, i ∉ before.opened.map (·.index) →
    i ∉ after.opened.map (·.index)

namespace Continues

theorem refl (place : Nat) (nesting : Nesting) : Continues place nesting nesting where
  kept _ span hspan := ⟨span.stop, hspan, fun _ => rfl, .inl⟩
  closed _ _ h := h

theorem trans {middle : Nesting} (h : Continues place before middle)
    (h' : Continues place middle after) : Continues place before after where
  kept i span hspan := by
    obtain ⟨stop, hmiddle, hended, hopen⟩ := h.kept i span hspan
    obtain ⟨stop', hafter, hended', hopen'⟩ := h'.kept i _ hmiddle
    refine ⟨stop', hafter, fun hi => ?_, fun hi => ?_⟩
    -- what has ended at first has ended in between, so it keeps its end twice
    · have hlt : i < before.spans.size := (Array.getElem?_eq_some_iff.1 hspan).1
      exact (hended' (h.closed i hlt hi)).trans (hended hi)
    · by_cases hi' : i ∈ middle.opened.map (·.index)
      · exact hopen' hi'
      · rw [hended' hi']
        exact .inr ((hopen hi).resolve_left hi')
  closed i hlt hi := by
    have hlt' : i < middle.spans.size := by
      obtain ⟨_, hmiddle, -⟩ := h.kept i _ (Array.getElem?_eq_getElem hlt)
      exact (Array.getElem?_eq_some_iff.1 hmiddle).1
    exact h'.closed i hlt' (h.closed i hlt hi)

theorem endAt (spans : Array TagSpan) (inner outer : List OpenTag) (hle : place ≤ stop) :
    Continues place ⟨spans, inner ++ outer⟩ ⟨Nesting.endAt spans inner stop, outer⟩ where
  kept i span hspan := by
    rw [getElem?_endAt, show spans[i]? = some span from hspan]
    by_cases hi : i ∈ inner.map (·.index)
    · refine ⟨stop, by rw [if_pos hi]; rfl, fun hnot => absurd ?_ hnot, fun _ => .inr hle⟩
      rw [List.map_append]
      exact List.mem_append_left _ hi
    · refine ⟨span.stop, by rw [if_neg hi], fun _ => rfl, fun hopen => .inl ?_⟩
      rw [List.map_append] at hopen
      exact (List.mem_append.1 hopen).resolve_left hi
  closed i _ hi hopen := by
    rw [List.map_append] at hi
    exact hi (List.mem_append_right _ hopen)

theorem push (nesting : Nesting) (span : TagSpan) (hasContent : Bool) :
    Continues place nesting ⟨nesting.spans.push span,
      if hasContent then ⟨nesting.spans.size, span.name⟩ :: nesting.opened
      else nesting.opened⟩ where
  kept i found hfound := by
    have hlt : i < nesting.spans.size := (Array.getElem?_eq_some_iff.1 hfound).1
    refine ⟨found.stop, ?_, fun _ => rfl, fun hi => .inl ?_⟩
    · rw [Array.getElem?_push, if_neg hlt.ne]
      exact hfound
    · cases hasContent <;> simp_all
  closed i hlt hi := by cases hasContent <;> simp_all [hlt.ne]

theorem closeImplied (nesting : Nesting) (name : String) (hle : place ≤ stop) :
    Continues place nesting (nesting.closeImplied name stop) := by
  obtain ⟨inner, outer, hopened, heq⟩ := exists_closeImplied_eq nesting name stop
  rw [heq, show nesting = ⟨nesting.spans, inner ++ outer⟩ from hopened ▸ rfl]
  exact endAt _ _ _ hle

theorem close (nesting : Nesting) (name : String) {extent : Extent} (hle : place ≤ extent.start)
    (hextent : extent.start ≤ extent.stop) :
    Continues place nesting (nesting.close name extent) := by
  obtain ⟨inner, last, outer, hopened, heq⟩ := exists_close_eq nesting name extent
  rw [heq, show nesting = ⟨nesting.spans, inner ++ (last ++ outer)⟩ from hopened ▸ rfl]
  exact (endAt _ _ _ hle).trans (endAt _ _ _ (hle.trans hextent))

theorem add (nesting : Nesting) {mark : Mark} (hmark : mark.StandsIn text)
    (hle : place ≤ mark.start) : Continues place nesting (nesting.add mark) := by
  cases mark with
  | opening span hasContent =>
    exact (closeImplied nesting span.name hle).trans (push _ span hasContent)
  | closing name extent => exact close nesting name hle hmark.start_le_stop

theorem foldl_add (nesting : Nesting) {marks : List Mark}
    (hmarks : ∀ mark ∈ marks, mark.StandsIn text ∧ place ≤ mark.start) :
    Continues place nesting (marks.foldl Nesting.add nesting) := by
  induction marks generalizing nesting with
  | nil => exact refl place nesting
  | cons mark rest ih =>
    obtain ⟨hmark, hle⟩ := hmarks mark List.mem_cons_self
    exact (add nesting hmark hle).trans
      (ih _ fun later hlater => hmarks later (List.mem_cons_of_mem _ hlater))

theorem finish (nesting : Nesting) {size : Nat} (hle : place ≤ size) :
    Continues place nesting ⟨nesting.finish size, []⟩ := by
  have h := endAt nesting.spans nesting.opened [] hle
  rw [List.append_nil] at h
  exact h

end Continues

/-- What is open ends later. -/
theorem Continues.exists_span (h : Continues place before ⟨spans, []⟩) (hbefore : Consistent before)
    (htag : tag ∈ before.opened) :
    ∃ span, spans[tag.index]? = some span ∧ span.name = tag.name ∧ place ≤ span.stop := by
  obtain ⟨span, hspan, hname⟩ := hbefore.named tag htag
  obtain ⟨stop, hafter, -, hopen⟩ := h.kept tag.index span hspan
  refine ⟨_, hafter, hname, (hopen (List.mem_map_of_mem htag)).resolve_left ?_⟩
  exact List.not_mem_nil

/-- What ends later is open. -/
theorem Continues.exists_openTag (h : Continues place before ⟨spans, []⟩)
    (hbefore : WellNested text before stop) {i : Nat} {a : TagSpan} (hi : i < before.spans.size)
    (ha : spans[i]? = some a) (hstop : stop < a.stop) : ∃ tag ∈ before.opened, tag.index = i := by
  obtain ⟨_, hafter, hended, -⟩ := h.kept i _ (Array.getElem?_eq_getElem hi)
  obtain rfl := Option.some.inj (ha.symm.trans hafter)
  have hopen : i ∈ before.opened.map (·.index) := by
    by_contra hnot
    have hle := hbefore.stop_le i _ (Array.getElem?_eq_getElem hi)
    rw [← hended hnot] at hle
    exact Nat.not_lt.2 hle hstop
  exact List.mem_map.1 hopen

/-- What has ended at a place ends there. -/
theorem Continues.exists_endedSpan {ended : Nat}
    (h : Continues place ⟨Nesting.endAt nesting.spans inner ended, outer⟩ ⟨spans, []⟩)
    (hopened : nesting.opened = inner ++ outer) (hwell : WellNested text nesting stop)
    (hconsistent : Consistent nesting) (htag : tag ∈ inner) :
    ∃ span, spans[tag.index]? = some span ∧ span.name = tag.name ∧ span.stop = ended := by
  obtain ⟨span, hspan, hname⟩ := hconsistent.named tag (hopened ▸ List.mem_append_left _ htag)
  have hended : (Nesting.endAt nesting.spans inner ended)[tag.index]? =
      some { span with stop := ended } := by
    rw [getElem?_endAt, if_pos (List.mem_map_of_mem htag), hspan]
    rfl
  -- it is not open any more, as what is still open has earlier numbers
  have hclosed : tag.index ∉ outer.map (·.index) := by
    intro hmem
    obtain ⟨other, hother, heq⟩ := List.mem_map.1 hmem
    exact (hwell.index_lt hopened htag hother).ne heq
  obtain ⟨_, hafter, hkept, -⟩ := h.kept _ _ hended
  exact ⟨_, hafter, hname, hkept hclosed⟩

end Nesting

/-- A start tag stands in an element of one of some names that starts in another element. -/
def TagSpan.Separated (text : List Char) (names : List String) (a b : TagSpan) : Prop :=
  ∃ c ∈ TagSpan.scan text, c.name ∈ names ∧ a.start < c.start ∧ c.start < b.start ∧
    b.start < c.stop

/-! ### At a start tag -/

namespace Nesting

variable {nesting : Nesting} {inner outer passed : List OpenTag} {tag last : OpenTag}
  {a b : TagSpan}

/-- The state in which the scan comes to the start tag of an element: all elements before that one
have been found, and what ends from there on ends behind the tag. -/
structure ComesTo (text : List Char) (b : TagSpan) (nesting : Nesting) : Prop where
  standsIn : b.StandsIn text
  wellNested : WellNested text nesting b.start
  consistent : Consistent nesting
  getElem?_size : (TagSpan.scan text)[nesting.spans.size]? = some b
  continues : Continues b.startTagEnd (nesting.closeImplied b.name b.start) ⟨TagSpan.scan text, []⟩

theorem exists_comesTo (hb : b ∈ TagSpan.scan text) : ∃ nesting, ComesTo text b nesting := by
  obtain ⟨before, after, hspans⟩ := List.append_of_mem (Array.mem_toList_iff.2 hb)
  obtain ⟨earlier, opened, hasContent, later, hmarks, hsize, hopened, -⟩ :=
    TagSpan.exists_opening hspans
  have hname : b.name = opened.name := by rw [hopened]
  have hstart : b.start = opened.start := by rw [hopened]
  have hend : b.startTagEnd = opened.startTagEnd := by rw [hopened]
  refine ⟨earlier.foldl add .empty, TagSpan.standsIn_of_mem_scan hb,
    hstart ▸ wellNested_earlier hmarks, .foldl_add .empty _, ?_, ?_⟩
  · rw [hsize, ← Array.getElem?_toList, hspans]
    simp
  · have hordered := Mark.pairwise_scan (standsIn_start text)
    have hstands := Mark.standsIn_of_mem_scan (standsIn_start text)
    rw [hmarks] at hordered hstands
    -- all later tags start behind this one, and so do the ends that they bring
    have hbehind := (List.pairwise_cons.1 (List.pairwise_append.1 hordered).2.1).1
    have hlater : ∀ mark ∈ later, mark.StandsIn text ∧ b.startTagEnd ≤ mark.start := by
      intro mark hmark
      refine ⟨(hstands mark (by simp [hmark])).1, ?_⟩
      rw [hend]
      exact hbehind mark hmark
    have hle : b.startTagEnd ≤ byteSize text := by
      rw [hend]
      exact (hstands (.opening opened hasContent) (by simp)).1.stop_le
    have hscan : TagSpan.scan text = finish (later.foldl add
        (add (earlier.foldl add .empty) (.opening opened hasContent))) (byteSize text) := by
      rw [TagSpan.scan, hmarks, List.foldl_append, List.foldl_cons]
    rw [hscan, hname, hstart]
    exact ((Continues.push _ opened hasContent).trans (.foldl_add _ hlater)).trans (.finish _ hle)

namespace ComesTo

theorem wellNested_closeImplied (h : ComesTo text b nesting) :
    WellNested text (nesting.closeImplied b.name b.start) b.start := by
  have hsize : b.start ≤ byteSize text :=
    calc b.start
      _ ≤ b.nameEnd := h.standsIn.start_lt_nameEnd.le
      _ ≤ b.startTagEnd := h.standsIn.nameEnd_le_startTagEnd
      _ ≤ b.stop := h.standsIn.startTagEnd_le_stop
      _ ≤ byteSize text := h.standsIn.stop_le
  exact h.wellNested.closeImplied b.name le_rfl h.standsIn.start_boundary hsize

/-- An element in which the tag stands is open when the tag is read. -/
theorem exists_openTag (h : ComesTo text b nesting) (ha : a ∈ TagSpan.scan text)
    (hstart : a.start < b.start) (hstop : b.start < a.stop) :
    ∃ tag ∈ (nesting.closeImplied b.name b.start).opened,
      (TagSpan.scan text)[tag.index]? = some a ∧ tag.name = a.name := by
  obtain ⟨i, hi⟩ := Array.mem_iff_getElem?.1 ha
  have hlt := (wellNested_scan text).lt_of_start_lt hi h.getElem?_size hstart
  rw [← size_closeImplied nesting b.name b.start] at hlt
  obtain ⟨tag, htag, rfl⟩ := h.continues.exists_openTag h.wellNested_closeImplied hlt hi hstop
  obtain ⟨span, hspan, hname, -⟩ :=
    h.continues.exists_span (h.consistent.closeImplied b.name b.start) htag
  obtain rfl := Option.some.inj (hi.symm.trans hspan)
  exact ⟨tag, htag, hi, hname.symm⟩

/-- What is open inside of an element when the tag is read stands between the two. -/
theorem separated (h : ComesTo text b nesting)
    (hopened : (nesting.closeImplied b.name b.start).opened = inner ++ tag :: outer)
    (ha : (TagSpan.scan text)[tag.index]? = some a) {names : List String}
    (hbound : ∃ bound ∈ inner, bound.name ∈ names) : TagSpan.Separated text names a b := by
  obtain ⟨bound, hbound, hname⟩ := hbound
  have hmem : bound ∈ (nesting.closeImplied b.name b.start).opened := by
    rw [hopened]
    exact List.mem_append_left _ hbound
  obtain ⟨c, hc, hcName, hcStop⟩ :=
    h.continues.exists_span (h.consistent.closeImplied b.name b.start) hmem
  have hinside := h.wellNested_closeImplied.index_lt hopened hbound List.mem_cons_self
  have hbefore := h.wellNested_closeImplied.opened_lt bound hmem
  rw [size_closeImplied] at hbefore
  have hbehind : b.start < b.startTagEnd :=
    h.standsIn.start_lt_nameEnd.trans_le h.standsIn.nameEnd_le_startTagEnd
  exact ⟨c, Array.mem_of_getElem? hc, hcName ▸ hname, (wellNested_scan text).start_lt hinside ha hc,
    (wellNested_scan text).start_lt hbefore hc h.getElem?_size, hbehind.trans_le hcStop⟩

/-- What the tag ends inside of an element ends where the tag starts. -/
theorem exists_endedSpan (h : ComesTo text b nesting) (hopened : nesting.opened = inner ++ outer)
    (hended : nesting.closeImplied b.name b.start = ⟨endAt nesting.spans inner b.start, outer⟩)
    (ha : (TagSpan.scan text)[tag.index]? = some a) (htag : tag ∈ outer) (hlast : last ∈ inner) :
    ∃ d ∈ TagSpan.scan text, d.name = last.name ∧ a.start < d.start ∧ d.start < b.start ∧
      d.stop = b.start := by
  have hcontinues := h.continues
  rw [hended] at hcontinues
  obtain ⟨d, hd, hname, hstop⟩ :=
    hcontinues.exists_endedSpan hopened h.wellNested h.consistent hlast
  have hinside := h.wellNested.index_lt hopened hlast htag
  have hbefore := h.wellNested.opened_lt last (hopened ▸ List.mem_append_left _ hlast)
  exact ⟨d, Array.mem_of_getElem? hd, hname, (wellNested_scan text).start_lt hinside ha hd,
    (wellNested_scan text).start_lt hbefore hd h.getElem?_size, hstop⟩

end ComesTo

end Nesting

/-! ### The elements of a text -/

namespace TagSpan

/-- If a start tag stands in an element that it could have ended, then a bound stands between them.
This fails in three cases, in all of which the tag has ended another element inside of that one: a
row stays open around the cell that the next row ends, a group around the option that the next group
ends, and an option around a list of options. -/
theorem scan_impliedEnd {a b : TagSpan} (ha : a ∈ TagSpan.scan text) (hb : b ∈ TagSpan.scan text)
    (hrule : impliedEnd b.name = some (closes, bounds)) (hbounds : bounds ≠ [])
    (hname : a.name ∈ closes) (hstart : a.start < b.start) (hstop : b.start < a.stop) :
    Separated text bounds a b ∨
      ((b.name = "tr" ∧ a.name = "tr" ∨ b.name = "optgroup" ∧
          (a.name = "optgroup" ∨ Separated text ["datalist"] a b)) ∧
        ∃ d ∈ TagSpan.scan text, d.name ∈ closes ∧ a.start < d.start ∧ d.start < b.start ∧
          d.stop = b.start) := by
  obtain ⟨nesting, hnesting⟩ := Nesting.exists_comesTo hb
  obtain ⟨tag, htag, hindex, htagName⟩ := hnesting.exists_openTag ha hstart hstop
  obtain ⟨inner, outer, hopened⟩ := List.append_of_mem htag
  rcases hnesting.consistent.allClear.closeImplied hrule hbounds hopened (htagName ▸ hname) with
    hbound | ⟨hspares, passed, last, hlast, hbefore, hended⟩
  · exact .inl (hnesting.separated hopened hindex hbound)
  · right
    refine ⟨?_, ?_⟩
    · rw [← htagName]
      refine hspares.imp_right (And.imp_right (Or.imp_right ?_))
      rintro ⟨list, hlist, hlistName⟩
      exact hnesting.separated hopened hindex ⟨list, hlist, by simp [hlistName]⟩
    · -- of the elements that end, the last is the one for which the tag has looked
      have hmem : last ∈ passed ++ [last] := List.mem_append_right _ (List.mem_singleton_self _)
      obtain ⟨d, hd, hdName, hplaces⟩ :=
        hnesting.exists_endedSpan hbefore hended hindex (by simp) hmem
      exact ⟨d, hd, hdName ▸ hlast, hplaces⟩

/-- The inner list stands between its item and the item of the outer list. -/
theorem scan_impliedEnd_nested_list :
    let text := "<ul><li>a<ul><li>b</ul></ul>".toList
    let item := TagSpan.mk "li" 4 7 8 23 []
    let inner := TagSpan.mk "li" 13 16 17 18 []
    item ∈ TagSpan.scan text ∧ inner ∈ TagSpan.scan text ∧
      impliedEnd inner.name = some (["li"], ["ul", "ol", "menu"]) ∧
      item.name ∈ ["li"] ∧ item.start < inner.start ∧ inner.start < item.stop ∧
      Separated text ["ul", "ol", "menu"] item inner := by
  intro text item inner
  have hscan : TagSpan.scan "<ul><li>a<ul><li>b</ul></ul>".toList =
      #[⟨"ul", 0, 3, 4, 28, []⟩, ⟨"li", 4, 7, 8, 23, []⟩, ⟨"ul", 9, 12, 13, 23, []⟩,
        ⟨"li", 13, 16, 17, 18, []⟩] := by
    decide +kernel
  have hitem : item ∈ TagSpan.scan text := by
    rw [show TagSpan.scan text = _ from hscan]
    simp [item]
  have hinner : inner ∈ TagSpan.scan text := by
    rw [show TagSpan.scan text = _ from hscan]
    simp [inner]
  have hseparated :=
    scan_impliedEnd hitem hinner rfl (by decide) (by decide) (by decide) (by decide)
  refine ⟨hitem, hinner, rfl, by decide, by decide, by decide, hseparated.resolve_right ?_⟩
  simp [inner]

/-- A row goes on over the next one if it is a cell of it that the next row ends. -/
theorem scan_impliedEnd_row_left_open :
    let text := "<table><tr><td>a<tr><td>b</table>".toList
    let row := TagSpan.mk "tr" 7 10 11 25 []
    let next := TagSpan.mk "tr" 16 19 20 25 []
    row ∈ TagSpan.scan text ∧ next ∈ TagSpan.scan text ∧
      impliedEnd next.name = some (["tr", "td", "th"], ["table", "tbody", "thead", "tfoot"]) ∧
      row.name ∈ ["tr", "td", "th"] ∧ row.start < next.start ∧ next.start < row.stop ∧
      ¬ Separated text ["table", "tbody", "thead", "tfoot"] row next := by
  intro text row next
  have hscan : TagSpan.scan "<table><tr><td>a<tr><td>b</table>".toList =
      #[⟨"table", 0, 6, 7, 33, []⟩, ⟨"tr", 7, 10, 11, 25, []⟩, ⟨"td", 11, 14, 15, 16, []⟩,
        ⟨"tr", 16, 19, 20, 25, []⟩, ⟨"td", 20, 23, 24, 25, []⟩] := by
    decide +kernel
  have hrow : row ∈ TagSpan.scan text := by
    rw [show TagSpan.scan text = _ from hscan]
    simp [row]
  have hnext : next ∈ TagSpan.scan text := by
    rw [show TagSpan.scan text = _ from hscan]
    simp [next]
  refine ⟨hrow, hnext, rfl, by decide, by decide, by decide, ?_⟩
  rintro ⟨c, hc, hname, hstart, -⟩
  -- the only bound is the table, which starts before the row
  rw [show TagSpan.scan text = _ from hscan] at hc
  simp only [List.mem_toArray, List.mem_cons, List.not_mem_nil, or_false] at hc
  rcases hc with rfl | rfl | rfl | rfl | rfl <;> simp [row] at hname hstart

end TagSpan

end ElementLint.Span
