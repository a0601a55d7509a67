import ElementLint.Proofs.Span.Revision

/-!
# The scan of a changed text

The spans of a text come from its start tags, in their order (`TagSpan.exists_opening`). If the tags
of another text are the same up to some start tag, and from there on the same but moved, then its
spans are those of the text as revised there (`TagSpan.follows_scan`).
-/

namespace ElementLint.Span

open Text Cursor

variable {text text' : List Char} {earlier between later : List Mark} {span span' : TagSpan}
  {hasContent : Bool} {revision : Revision}

namespace Nesting

theorem size_finish (nesting : Nesting) (size : Nat) :
    (nesting.finish size).size = nesting.spans.size :=
  size_endAt _ _ _

theorem size_closeImplied (nesting : Nesting) (name : String) (place : Nat) :
    (nesting.closeImplied name place).spans.size = nesting.spans.size := by
  obtain ⟨inner, outer, -, heq⟩ := exists_closeImplied_eq nesting name place
  rw [heq]
  exact size_endAt _ _ _

theorem size_close (nesting : Nesting) (name : String) (extent : Extent) :
    (nesting.close name extent).spans.size = nesting.spans.size := by
  obtain ⟨inner, last, outer, -, heq⟩ := exists_close_eq nesting name extent
  rw [heq, size_endAt, size_endAt]

/-- The number of an element tells how many start tags stand before that of the element. -/
theorem exists_opening_of_lt {marks : List Mark} {nesting : Nesting} {k : Nat}
    (hle : nesting.spans.size ≤ k) (hlt : k < (marks.foldl add nesting).spans.size) :
    ∃ earlier span hasContent later, marks = earlier ++ .opening span hasContent :: later ∧
      (earlier.foldl add nesting).spans.size = k := by
  induction marks generalizing nesting with
  | nil => exact absurd hlt (Nat.not_lt.2 hle)
  | cons mark rest ih =>
    cases mark with
    | opening span hasContent =>
      by_cases hk : nesting.spans.size = k
      · exact ⟨[], span, hasContent, rest, rfl, hk⟩
      · have hsize : (nesting.add (.opening span hasContent)).spans.size =
            nesting.spans.size + 1 := by
          rw [add, enter, Array.size_push, size_closeImplied]
        obtain ⟨earlier, found, content, later, rfl, hearlier⟩ := ih (by omega) hlt
        exact ⟨_ :: earlier, found, content, later, rfl, hearlier⟩
    | closing name extent =>
      have hsize : (nesting.add (.closing name extent)).spans.size = nesting.spans.size :=
        size_close nesting name extent
      obtain ⟨earlier, found, content, later, rfl, hearlier⟩ := ih (by omega) hlt
      exact ⟨_ :: earlier, found, content, later, rfl, hearlier⟩

/-- What has been found before a start tag has ended there or is open. -/
theorem wellNested_earlier
    (h : Mark.scan ⟨0, text⟩ = earlier ++ .opening span hasContent :: later) :
    WellNested text (earlier.foldl add .empty) span.start := by
  have hstart := standsIn_start text
  have hordered := Mark.pairwise_scan hstart
  rw [h] at hordered
  obtain ⟨hearlier, -, hbefore⟩ := List.pairwise_append.1 hordered
  refine (WellNested.empty text).foldl_add (Nat.zero_le _) (fun mark hmark => ?_) hearlier
  have hmem : mark ∈ Mark.scan ⟨0, text⟩ := h ▸ List.mem_append_left _ hmark
  obtain ⟨hstands, hle⟩ := Mark.standsIn_of_mem_scan hstart mark hmem
  exact ⟨hstands, hle, hbefore mark hmark _ List.mem_cons_self⟩

end Nesting

namespace TagSpan

/-- The spans of two texts whose tags are the same up to a start tag and behind it. -/
theorem follows_scan
    (hold : Mark.scan ⟨0, text⟩ = earlier ++ .opening span hasContent :: later)
    (hnew : Mark.scan ⟨0, text'⟩ = earlier ++ .opening span' hasContent ::
      (between ++ later.map (·.mapPlaces revision.place)))
    (hbetween : ∀ nesting : Nesting, between.foldl Nesting.add nesting =
      ⟨nesting.spans ++ revision.added.toArray, nesting.opened⟩)
    (hindex : (earlier.foldl Nesting.add .empty).spans.size = revision.index)
    (hsize : byteSize text' = revision.place (byteSize text))
    (hplace : ∀ place ≤ span.start, revision.place place = place)
    (htag : span'.name = span.name ∧ span'.start = span.start)
    (hspan : ∃ stop, span' = { revision.own span with stop } ∧
      (hasContent = false → stop = (revision.own span).stop))
    (hown : hasContent = true → ∀ (span : TagSpan) (stop : Nat),
      revision.own { span with stop } = { revision.own span with stop := revision.place stop }) :
    Nesting.Follows revision ⟨TagSpan.scan text, []⟩ ⟨TagSpan.scan text', []⟩ := by
  obtain ⟨hmark, -⟩ := Mark.standsIn_of_mem_scan (standsIn_start text) (.opening span hasContent)
    (hold ▸ List.mem_append_right _ List.mem_cons_self)
  have hclosed := (Nesting.wellNested_earlier hold).closeImplied span.name le_rfl
    hmark.start_boundary (hmark.start_le_stop.trans hmark.stop_le)
  rw [← Nesting.size_closeImplied _ span.name span.start] at hindex
  -- from the changed element on the two scans go along with each other
  have hstart := Nesting.Follows.start span.name hclosed hplace hindex hspan hown
  have hend := (hstart.foldl_add later).finish (byteSize text)
  have hscan : TagSpan.scan text = Nesting.finish _ (byteSize text) := rfl
  have hscan' : TagSpan.scan text' = Nesting.finish _ (byteSize text') := rfl
  rw [hold, List.foldl_append, List.foldl_cons] at hscan
  rw [hnew, List.foldl_append, List.foldl_cons, List.foldl_append, hbetween, hsize, Nesting.add,
    Nesting.enter, htag.1, htag.2] at hscan'
  rw [hscan, hscan']
  exact hend

/-- A span comes from a start tag, of which only the end is another one. -/
theorem exists_opening {before after : List TagSpan}
    (h : (TagSpan.scan text).toList = before ++ span :: after) :
    ∃ earlier opened hasContent later,
      Mark.scan ⟨0, text⟩ = earlier ++ .opening opened hasContent :: later ∧
      (earlier.foldl Nesting.add .empty).spans.size = before.length ∧
      span = { opened with stop := span.stop } ∧ (hasContent = false → span = opened) := by
  have hlt : before.length < ((Mark.scan ⟨0, text⟩).foldl Nesting.add .empty).spans.size := by
    rw [← Nesting.size_finish _ (byteSize text), ← TagSpan.scan, ← Array.length_toList, h]
    simp
  obtain ⟨earlier, opened, hasContent, later, hmarks, hsize⟩ :=
    Nesting.exists_opening_of_lt (Nat.zero_le _) hlt
  refine ⟨earlier, opened, hasContent, later, hmarks, hsize, ?_⟩
  -- the scan goes along with itself, and in doing so it changes nothing but the end of an open span
  let revision : Revision :=
    { index := before.length
      own := fun span => if hasContent then { opened with stop := span.stop } else opened
      added := []
      place := fun place => place }
  have hfollows : Nesting.Follows revision ⟨TagSpan.scan text, []⟩ ⟨TagSpan.scan text, []⟩ := by
    have hsame : Mark.scan ⟨0, text⟩ = earlier ++ .opening opened hasContent ::
        ([] ++ later.map (·.mapPlaces revision.place)) := by
      simp [revision, hmarks]
    refine follows_scan hmarks hsame (fun nesting => ?_) hsize rfl (fun _ _ => rfl)
      ⟨rfl, rfl⟩ ⟨opened.stop, ?_, ?_⟩ ?_
    · simp [revision]
    · cases hasContent <;> rfl
    · rintro rfl
      rfl
    · rintro rfl _ _
      rfl
  have hspan := hfollows.toList_eq h rfl
  rw [h] at hspan
  obtain ⟨-, hspan⟩ := List.append_inj hspan (by simp)
  obtain ⟨hspan, -⟩ := List.cons.inj hspan
  cases hasContent with
  | false => exact ⟨by rw [hspan]; rfl, fun _ => hspan⟩
  | true => exact ⟨hspan, fun hfalse => by contradiction⟩

end TagSpan

end ElementLint.Span
