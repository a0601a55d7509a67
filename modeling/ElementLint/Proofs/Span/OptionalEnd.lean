import ElementLint.Proofs.Span.ListRoundTrip
import ElementLint.Proofs.Span.Shift
import ElementLint.Proofs.Text.Gaps

/-!
# End tags that are left out

Leaving out end tags of items changes nothing but the ends of those items
(`Written.Run.scan_optionalEnds`): the scan finds in the shorter text the elements of the complete
one, with their places moved by the size of the end tags that are left out before them, and an item
without an end tag ends where the next item of its list starts, or where the end tag of the list
does.

* `Written.Run.between_gaps` — the end tags that are left out of a run lie in it.
* `Written.Run.without_complete` — a run is the complete run without them.
* `Written.Run.zipWith_spans_complete` — the places in a run compared with those in the complete
  run.

The last two go through a run part by part. `Text.Parts` says of each part which end tags are left
out before it, in it and behind it.
-/

namespace ElementLint.Span.Written

open Text

variable {setting : Setting} {kind : ListKind}

namespace Run

/-! ### The complete run -/

theorem length_ends (run : Run setting) (place start : Nat) :
    (run.complete.spans start).length = (run.ends place).length := by
  induction run generalizing place start with
  | nil => rfl
  | text run hrun more ih => exact ih _ _
  | comment run hrun more ih => exact ih _ _
  | element name attributes children more ihChildren ihMore =>
    simp only [complete, Run.spans, ends, List.length_cons, List.length_append]
    rw [ihChildren, ihMore]
  | item name attributes ended children more ihChildren ihMore =>
    simp only [complete, Run.spans, ends, List.length_cons, List.length_append]
    rw [ihChildren, ihMore]

@[simp]
theorem itemEnd_true (name : ItemName kind) : itemEnd name true = closingTag name.text := rfl

/-- The end tag of an item is written, or its bytes are missing. -/
theorem byteSize_itemEnd (name : ItemName kind) (ended : Bool) (start : Nat) :
    byteSize (closingTag name.text) = byteSize (itemEnd name ended) +
      totalSize (itemGap ended start (start + byteSize (closingTag name.text))) := by
  cases ended with
  | true => rfl
  | false => simp [itemEnd, itemGap, totalSize]

theorem byteSize_complete (run : Run setting) (start : Nat) :
    byteSize run.complete.write = byteSize run.write + totalSize (run.gaps start) := by
  induction run generalizing start with
  | nil => rfl
  | text run hrun more ih =>
    rw [complete, write, write, byteSize_append, byteSize_append, ih, Nat.add_assoc]
    rfl
  | comment run hrun more ih =>
    rw [complete, write, write, byteSize_append, byteSize_append, ih, Nat.add_assoc]
    rfl
  | element name attributes children more ihChildren ihMore =>
    have hchildren := ihChildren (start + byteSize (openingTag name.text attributes))
    have hmore := ihMore (start + byteSize (openingTag name.text attributes) +
      byteSize children.complete.write + byteSize (closingTag name.text))
    simp only [complete, write, gaps, byteSize_append, totalSize_append]
    omega
  | item name attributes ended children more ihChildren ihMore =>
    have hchildren := ihChildren (start + byteSize (openingTag name.text attributes))
    have hend := byteSize_itemEnd name ended
      (start + byteSize (openingTag name.text attributes) + byteSize children.complete.write)
    have hmore := ihMore (start + byteSize (openingTag name.text attributes) +
      byteSize children.complete.write + byteSize (closingTag name.text))
    simp only [complete, write, gaps, byteSize_append, totalSize_append, itemEnd_true]
    omega

theorem between_itemGap (ended : Bool) (start : Nat) (name : ItemName kind) :
    Between start (start + byteSize (closingTag name.text))
      (itemGap ended start (start + byteSize (closingTag name.text))) := by
  have hpos : 0 < byteSize (closingTag name.text) := byteSize_pos (by simp [closingTag])
  cases ended with
  | true => exact .nil _ _
  | false => simpa [itemGap, Between] using hpos

/-- What is left out of a run lies in it. -/
theorem between_gaps (run : Run setting) (start : Nat) :
    Between start (start + byteSize run.complete.write) (run.gaps start) := by
  induction run generalizing start with
  | nil => exact .nil _ _
  | text run hrun more ih =>
    have hmore := ih (start + byteSize run)
    rw [complete, write, byteSize_append, ← Nat.add_assoc]
    exact hmore.mono (Nat.le_add_right _ _) (Nat.le_refl _)
  | comment run hrun more ih =>
    have hmore := ih (start + byteSize (writeComment run))
    rw [complete, write, byteSize_append, ← Nat.add_assoc]
    exact hmore.mono (Nat.le_add_right _ _) (Nat.le_refl _)
  | element name attributes children more ihChildren ihMore =>
    have hchildren := ihChildren (start + byteSize (openingTag name.text attributes))
    have hmore := ihMore (start + byteSize (openingTag name.text attributes) +
      byteSize children.complete.write + byteSize (closingTag name.text))
    simp only [complete, write, gaps, byteSize_append]
    exact (hchildren.mono (by omega) (by omega)).append (hmore.mono (by omega) (by omega))
  | item name attributes ended children more ihChildren ihMore =>
    have hchildren := ihChildren (start + byteSize (openingTag name.text attributes))
    have hown := between_itemGap ended
      (start + byteSize (openingTag name.text attributes) + byteSize children.complete.write) name
    have hmore := ihMore (start + byteSize (openingTag name.text attributes) +
      byteSize children.complete.write + byteSize (closingTag name.text))
    simp only [complete, write, gaps, byteSize_append, itemEnd_true]
    exact (hchildren.mono (by omega) (by omega)).append
      ((hown.mono (by omega) (by omega)).append (hmore.mono (by omega) (by omega)))

variable {all before behind : List Extent} {start : Nat}

/-- Where gaps are in an element that is followed by siblings. -/
theorem parts_element {inside : Setting} {name : ParentName inside} {attributes : List Attribute}
    {children : Run inside} {more : Run .free}
    (h : Parts all before ((Run.element name attributes children more).gaps start) behind start
      (start + byteSize (Run.element name attributes children more).complete.write)) :
    let inside := start + byteSize (openingTag name.text attributes)
    let outside := inside + byteSize children.complete.write
    let after := outside + byteSize (closingTag name.text)
    Parts all before [] (children.gaps inside ++ more.gaps after ++ behind) start inside ∧
      Parts all before (children.gaps inside) (more.gaps after ++ behind) inside outside ∧
      Parts all (before ++ children.gaps inside) [] (more.gaps after ++ behind) outside after ∧
      Parts all (before ++ children.gaps inside) (more.gaps after) behind after
        (after + byteSize more.complete.write) := by
  intro inside outside after
  have hsize : start + byteSize (Run.element name attributes children more).complete.write =
      after + byteSize more.complete.write := by
    simp only [complete, write, byteSize_append, ← Nat.add_assoc]
    rfl
  rw [hsize] at h
  -- an element that is not left open has no gap of its own
  have hown : Parts all before (children.gaps inside ++ ([] ++ more.gaps after)) behind start
      (after + byteSize more.complete.write) := h
  have hparts := hown.split (children.between_gaps inside) (.nil outside after)
    (more.between_gaps after) (Nat.le_add_right _ _) (Nat.le_add_right _ _) (Nat.le_add_right _ _)
    (Nat.le_add_right _ _)
  simpa only [List.nil_append, List.append_nil] using hparts

/-- Where gaps are in an item that is followed by siblings. -/
theorem parts_item {name : ItemName kind} {attributes : List Attribute} {ended : Bool}
    {children : Run .free} {more : Run (.inList kind)}
    (h : Parts all before ((Run.item name attributes ended children more).gaps start) behind start
      (start + byteSize (Run.item name attributes ended children more).complete.write)) :
    let inside := start + byteSize (openingTag name.text attributes)
    let outside := inside + byteSize children.complete.write
    let after := outside + byteSize (closingTag name.text)
    let own := itemGap ended outside after
    Parts all before [] (children.gaps inside ++ (own ++ more.gaps after) ++ behind) start inside ∧
      Parts all before (children.gaps inside) (own ++ more.gaps after ++ behind) inside outside ∧
      Parts all (before ++ children.gaps inside) own (more.gaps after ++ behind) outside after ∧
      Parts all (before ++ children.gaps inside ++ own) (more.gaps after) behind after
        (after + byteSize more.complete.write) := by
  intro inside outside after own
  have hsize : start + byteSize (Run.item name attributes ended children more).complete.write =
      after + byteSize more.complete.write := by
    simp only [complete, write, byteSize_append, ← Nat.add_assoc]
    rfl
  rw [hsize] at h
  exact h.split (children.between_gaps inside) (between_itemGap ended outside name)
    (more.between_gaps after) (Nat.le_add_right _ _) (Nat.le_add_right _ _) (Nat.le_add_right _ _)
    (Nat.le_add_right _ _)

theorem without_itemEnd {ended : Bool} (name : ItemName kind)
    (h : Parts all before (itemGap ended start (start + byteSize (closingTag name.text))) behind
      start (start + byteSize (closingTag name.text))) :
    without all start (closingTag name.text) = itemEnd name ended := by
  cases ended with
  | true => exact h.without_eq_self
  | false =>
    have hgap : ⟨start, start + byteSize (closingTag name.text)⟩ ∈ all := by
      rw [h.eq_append]
      exact List.mem_append_right _ List.mem_cons_self
    exact without_eq_nil hgap (Nat.le_refl _) (Nat.le_refl _)

/-- A run is the complete run without the end tags that are left out. -/
theorem without_complete (run : Run setting)
    (h : Parts all before (run.gaps start) behind start (start + byteSize run.complete.write)) :
    without all start run.complete.write = run.write := by
  induction run generalizing start before behind with
  | nil => rfl
  | text run hrun more ih =>
    rw [complete, write, byteSize_append, ← Nat.add_assoc] at h
    obtain ⟨hrun, hmore⟩ := h.front (more.between_gaps _) (Nat.le_add_right _ _)
      (Nat.le_add_right _ _)
    rw [complete, write, write, without_append, hrun.without_eq_self, ih hmore]
  | comment run hrun more ih =>
    rw [complete, write, byteSize_append, ← Nat.add_assoc] at h
    obtain ⟨hrun, hmore⟩ := h.front (more.between_gaps _) (Nat.le_add_right _ _)
      (Nat.le_add_right _ _)
    rw [complete, write, write, without_append, hrun.without_eq_self, ih hmore]
  | element name attributes children more ihChildren ihMore =>
    obtain ⟨hopening, hchildren, hclosing, hmore⟩ := parts_element h
    rw [complete, write, write, without_append, hopening.without_eq_self, without_append,
      ihChildren hchildren, without_append, hclosing.without_eq_self, ihMore hmore]
  | item name attributes ended children more ihChildren ihMore =>
    obtain ⟨hopening, hchildren, hown, hmore⟩ := parts_item h
    rw [complete, write, write, without_append, hopening.without_eq_self, without_append,
      ihChildren hchildren, without_append, itemEnd_true, without_itemEnd name hown, ihMore hmore]

end Run

/-! ### Places in the complete run -/

theorem mapPlaces_attributeSpans {f : Nat → Nat} {start place : Nat} (attributes : List Attribute)
    (hf : ∀ n ≤ byteSize (writeAttributes attributes), f (start + n) = place + n) :
    (attributeSpans start attributes).map (·.mapPlaces f) = attributeSpans place attributes := by
  induction attributes generalizing start place with
  | nil => rfl
  | cons entry more ih =>
    have hsize : byteSize (writeAttributes (entry :: more)) =
        byteSize entry.write + byteSize (writeAttributes more) := by
      rw [writeAttributes, List.flatMap_cons, byteSize_append]
      rfl
    rw [attributeSpans, attributeSpans, List.map_cons]
    congr 1
    · obtain ⟨name, value⟩ := entry
      cases value with
      | none => rfl
      | some value =>
        -- both ends of the value stand in the attribute, where places are moved alike
        have hvalue : byteSize (Attribute.write ⟨name, some value⟩) =
            byteSize (' ' :: (name.text ++ ['='])) + byteSize value.write := by
          simp [Attribute.write, Nat.add_assoc]
        rw [hvalue] at hsize
        simp only [Attribute.span, AttributeSpan.mapPlaces, Option.map_some, Extent.mapPlaces]
        rw [hf _ (by omega), Nat.add_assoc, hf _ (by omega), Nat.add_assoc]
    · refine ih fun n hn => ?_
      rw [Nat.add_assoc, Nat.add_assoc, hf _ (by omega)]

/-- A span of the complete text, in the text without its gaps. An element whose end tag is left out
ends at a place of its own. -/
def spanWithout (gaps : List Extent) (span : TagSpan) (stop? : Option Nat) : TagSpan :=
  { span.mapPlaces (placeWithout gaps) with stop := stop?.getD (placeWithout gaps span.stop) }

variable {all before behind : List Extent} {start place : Nat}

theorem spanWithout_tagSpan {name : List Char} {attributes : List Attribute}
    (h : Parts all before [] behind start (start + byteSize (openingTag name attributes)))
    (hstart : start = place + totalSize before) (stop : Nat) (stop? : Option Nat) :
    spanWithout all (tagSpan start name attributes stop) stop? =
      tagSpan place name attributes (stop?.getD (placeWithout all stop)) := by
  have hmove : ∀ n ≤ byteSize (openingTag name attributes),
      placeWithout all (start + n) = place + n := by
    intro n hn
    rw [h.placeWithout_eq (Nat.le_add_right _ _) (Nat.add_le_add_left hn start)]
    omega
  have hplace : placeWithout all start = place := hmove 0 (Nat.zero_le _)
  have hsize : byteSize (openingTag name attributes) =
      byteSize ('<' :: name) + (byteSize (writeAttributes attributes) + byteSize ['>']) := by
    rw [openingTag, ← List.cons_append, byteSize_append, byteSize_append]
  have hattributes : ∀ n ≤ byteSize (writeAttributes attributes),
      placeWithout all (start + byteSize ('<' :: name) + n) =
        place + byteSize ('<' :: name) + n := by
    intro n hn
    rw [Nat.add_assoc, Nat.add_assoc, hmove _ (by omega)]
  rw [spanWithout, TagSpan.mapPlaces]
  dsimp only [tagSpan]
  rw [mapPlaces_attributeSpans attributes hattributes, hmove _ (by omega), hmove _ (Nat.le_refl _),
    hplace]

namespace Run

/-- The elements of a run are those of the complete run, with the places and the ends that they
have in the shorter text. -/
theorem zipWith_spans_complete (run : Run setting)
    (h : Parts all before (run.gaps start) behind start (start + byteSize run.complete.write))
    (hstart : start = place + totalSize before) :
    List.zipWith (spanWithout all) (run.complete.spans start) (run.ends place) =
      run.spans place := by
  induction run generalizing start place before behind with
  | nil => rfl
  | text run hrun more ih =>
    rw [complete, write, byteSize_append, ← Nat.add_assoc] at h
    obtain ⟨-, hmore⟩ := h.front (more.between_gaps _) (Nat.le_add_right _ _)
      (Nat.le_add_right _ _)
    exact ih hmore (by omega)
  | comment run hrun more ih =>
    rw [complete, write, byteSize_append, ← Nat.add_assoc] at h
    obtain ⟨-, hmore⟩ := h.front (more.between_gaps _) (Nat.le_add_right _ _)
      (Nat.le_add_right _ _)
    exact ih hmore (by omega)
  | element name attributes children more ihChildren ihMore =>
    obtain ⟨hopening, hchildren, -, hmore⟩ := parts_element h
    have hsize := children.byteSize_complete (start + byteSize (openingTag name.text attributes))
    rw [complete, Run.spans, ends, Run.spans, List.zipWith_cons_cons,
      spanWithout_tagSpan hopening hstart, List.zipWith_append (length_ends _ _ _),
      ihChildren hchildren ?_, ihMore hmore ?_, Option.getD_none, hmore.placeWithout_start,
      totalSize_append]
    · congr 2
      omega
    · rw [totalSize_append]
      omega
    · omega
  | item name attributes ended children more ihChildren ihMore =>
    obtain ⟨hopening, hchildren, -, hmore⟩ := parts_item h
    have hsize := children.byteSize_complete (start + byteSize (openingTag name.text attributes))
    have hend := byteSize_itemEnd name ended
      (start + byteSize (openingTag name.text attributes) + byteSize children.complete.write)
    rw [complete, Run.spans, ends, Run.spans, List.zipWith_cons_cons, if_pos rfl, itemEnd_true,
      spanWithout_tagSpan hopening hstart, List.zipWith_append (length_ends _ _ _),
      ihChildren hchildren ?_, ihMore hmore ?_, hmore.placeWithout_start, totalSize_append,
      totalSize_append]
    -- a written end tag moves with the rest; without one the item ends at its own place
    · cases ended with
      | true =>
        congr 2
        simp only [if_true, Option.getD_none]
        omega
      | false => rfl
    · rw [totalSize_append, totalSize_append]
      omega
    · omega

/-- Whichever end tags of items are left out, a scan finds the elements that it finds in the
complete text, in the same order. Their places are moved by the bytes that are left out before them,
and an item without an end tag ends where the next item of its list starts, or where the end tag of
its list does. -/
theorem scan_optionalEnds (forest : Run .free) :
    forest.write = without (forest.gaps 0) 0 forest.complete.write ∧
      (forest.ends 0).length = (TagSpan.scan forest.complete.write).size ∧
      (TagSpan.scan forest.write).toList =
        List.zipWith (spanWithout (forest.gaps 0)) (TagSpan.scan forest.complete.write).toList
          (forest.ends 0) := by
  -- nothing is left out around the forest
  have hparts : Parts (forest.gaps 0) [] (forest.gaps 0) [] 0
      (0 + byteSize forest.complete.write) :=
    { eq_append := by simp
      le := Nat.le_add_right _ _
      before_le := by simp
      inside_between := forest.between_gaps 0
      le_behind := by simp }
  refine ⟨(forest.without_complete hparts).symm, ?_, ?_⟩
  · rw [← Array.length_toList, toList_scan, forest.length_ends 0 0]
  · rw [toList_scan, toList_scan, forest.zipWith_spans_complete hparts rfl]

/-- A list in the first of two items without end tags. -/
example :
    let inner : Run .free :=
      .element .ul [] (.item .li [] false .nil (.item .li [] true .nil .nil)) .nil
    let forest : Run .free :=
      .element .ol [] (.item .li [] false inner (.item .li [] false .nil .nil)) .nil
    forest.write = "<ol><li><ul><li><li></li></ul><li></ol>".toList ∧
      forest.complete.write = "<ol><li><ul><li></li><li></li></ul></li><li></li></ol>".toList ∧
      forest.ends 0 = [none, some 30, none, some 16, none, some 34] ∧
      (forest.spans 0).map (fun span => (span.name, span.start, span.stop)) =
        [("ol", 0, 39), ("li", 4, 30), ("ul", 8, 30), ("li", 12, 16), ("li", 16, 25),
          ("li", 30, 34)] := by
  decide +kernel

end Run

end ElementLint.Span.Written
