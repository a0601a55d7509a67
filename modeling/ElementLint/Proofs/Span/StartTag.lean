import ElementLint.Proofs.Span.Cursor
import ElementLint.Proofs.Text.Pieces
import ElementLint.Span.StartTag
import Mathlib.Order.Nat
import Mathlib.Tactic.Set

/-!
# Places in a start tag

A start tag that is found in a text stands in it. Its name and the names of its attributes are
slices of the text, and so are the values, which come one after the other between the tag name and
the end of the tag (`TagSpan.standsIn_ofStartTag`). This holds for every text, whatever of the tag
is missing.
-/

namespace ElementLint.Span

open Text Cursor

variable {text : List Char}

/-- An attribute stands between two places of a text: its name is written there, and after it its
value if it has one. -/
structure AttributeSpan.LiesIn (text : List Char) (first last : Nat) (entry : AttributeSpan) :
    Prop where
  /-- The name is a slice of the text, and the value does not start before its end. -/
  name_slice : ∃ extent written, slice? text extent = some written ∧ written ≠ [] ∧
    entry.name = String.ofList (lower written) ∧ first ≤ extent.start ∧ extent.stop ≤ last ∧
    ∀ value ∈ entry.value, extent.stop ≤ value.start
  /-- The value is a slice of the text. -/
  value_fits : ∀ value ∈ entry.value,
    first ≤ value.start ∧ value.stop ≤ last ∧ value.fits text = true

/-- Attributes stand one after the other between two places of a text. -/
inductive AttributesIn (text : List Char) : Nat → List AttributeSpan → Nat → Prop
  | nil {first last : Nat} : first ≤ last → AttributesIn text first [] last
  | cons {first middle last : Nat} {entry : AttributeSpan} {rest : List AttributeSpan} :
      entry.LiesIn text first middle → AttributesIn text middle rest last →
      AttributesIn text first (entry :: rest) last

namespace AttributesIn

variable {first first' last : Nat} {attributes : List AttributeSpan}

theorem le (h : AttributesIn text first attributes last) : first ≤ last := by
  induction h with
  | nil hle => exact hle
  | cons hattribute _ ih =>
    obtain ⟨extent, written, hslice, -, -, hfirst, hmiddle, -⟩ := hattribute.name_slice
    have hextent := (fits_iff_isBoundary.1 (fits_of_slice?_eq_some hslice)).1
    exact hfirst.trans (hextent.trans (hmiddle.trans ih))

/-- The first place may be moved back. -/
theorem mono (h : AttributesIn text first attributes last) (hle : first' ≤ first) :
    AttributesIn text first' attributes last := by
  cases h with
  | nil hlast => exact .nil (hle.trans hlast)
  | cons hattribute hrest =>
    obtain ⟨extent, written, hslice, hne, hname, hfirst, hmiddle, hvalue⟩ := hattribute.name_slice
    refine .cons ⟨⟨extent, written, hslice, hne, hname, hle.trans hfirst, hmiddle, hvalue⟩, ?_⟩
      hrest
    intro value hvalue
    obtain ⟨hstart, hstop, hfits⟩ := hattribute.value_fits value hvalue
    exact ⟨hle.trans hstart, hstop, hfits⟩

/-- Every value lies between the two places. -/
theorem value_mem (h : AttributesIn text first attributes last) :
    ∀ entry ∈ attributes, ∀ value ∈ entry.value,
      first ≤ value.start ∧ value.stop ≤ last ∧ value.fits text = true := by
  induction h with
  | nil => simp
  | cons hattribute hrest ih =>
    intro other hother value hvalue
    rcases List.mem_cons.1 hother with rfl | hmem
    · obtain ⟨hstart, hstop, hfits⟩ := hattribute.value_fits value hvalue
      exact ⟨hstart, hstop.trans hrest.le, hfits⟩
    · obtain ⟨hstart, hstop, hfits⟩ := ih other hmem value hvalue
      have hmiddle := (AttributesIn.cons hattribute (.nil le_rfl)).le
      exact ⟨hmiddle.trans hstart, hstop, hfits⟩

/-- The values come one after the other. -/
theorem pairwise_values (h : AttributesIn text first attributes last) :
    (attributes.filterMap (·.value)).Pairwise (fun a b => a.stop ≤ b.start) := by
  induction h with
  | nil => exact .nil
  | cons hattribute hrest ih =>
    rw [List.filterMap_cons]
    split
    · exact ih
    · next value hvalue =>
      refine List.pairwise_cons.2 ⟨?_, ih⟩
      intro later hlater
      obtain ⟨other, hother, hlater⟩ := List.mem_filterMap.1 hlater
      have hstart := (hrest.value_mem other hother later hlater).1
      exact (hattribute.value_fits value hvalue).2.1.trans hstart

end AttributesIn

/-! ### Attributes -/

section Equations

variable {cursor : Cursor} {first : Char} {rest : List Char} {offset place : Nat}

/-- A slash before which blanks and slashes stop is that of `/>`. -/
theorem skipBetween_slash (h : skipBetween offset text = ⟨place, '/' :: rest⟩) :
    ∃ last, rest = '>' :: last := by
  fun_induction skipBetween offset text with
  | case1 => cases h
  | case2 =>
    obtain ⟨-, rfl⟩ := List.cons.inj (Cursor.mk.inj h).2
    exact ⟨_, rfl⟩
  | case3 _ _ _ _ _ ih => exact ih h
  | case4 offset c rest _ hskip =>
    obtain ⟨rfl, -⟩ := List.cons.inj (Cursor.mk.inj h).2
    exact absurd rfl hskip

/-- The end of the text ends the attributes. -/
theorem attributesAt_of_nil (h : skipBetween cursor.offset cursor.rest = ⟨place, []⟩) :
    attributesAt cursor = ([], ⟨place, []⟩) := by
  rw [attributesAt]
  split
  · rw [h]
  · next heq => simp [h] at heq
  · next heq => simp [h] at heq
  · next heq => simp [h] at heq

theorem attributesAt_of_gt (h : skipBetween cursor.offset cursor.rest = ⟨place, '>' :: rest⟩) :
    attributesAt cursor = ([], ⟨place + 1, rest⟩) := by
  rw [attributesAt]
  split
  · next heq => simp [h] at heq
  · rw [h]
    rfl
  · next heq => simp [h] at heq
  · next hne _ heq =>
    rw [h] at heq
    exact absurd (List.cons.inj heq).1.symm hne

theorem attributesAt_of_slash
    (h : skipBetween cursor.offset cursor.rest = ⟨place, '/' :: '>' :: rest⟩) :
    attributesAt cursor = ([], ⟨place + 2, rest⟩) := by
  rw [attributesAt]
  split
  · next heq => simp [h] at heq
  · next heq => simp [h] at heq
  · rw [h]
    rfl
  · next _ hne heq =>
    rw [h] at heq
    exact absurd (List.cons.inj heq).1.symm hne

/-- Any other character starts an attribute. -/
theorem attributesAt_of_cons (h : skipBetween cursor.offset cursor.rest = ⟨place, first :: rest⟩)
    (hgt : first ≠ '>') (hslash : first ≠ '/') :
    attributesAt cursor =
      ((attributeAt first ⟨place, first :: rest⟩).1 ::
          (attributesAt (attributeAt first ⟨place, first :: rest⟩).2).1,
        (attributesAt (attributeAt first ⟨place, first :: rest⟩).2).2) := by
  rw [attributesAt]
  split
  · next heq => simp [h] at heq
  · next heq =>
    rw [h] at heq
    exact absurd (List.cons.inj heq).1 hgt
  · next heq =>
    rw [h] at heq
    exact absurd (List.cons.inj heq).1 hslash
  · next heq =>
    rw [h] at heq ⊢
    obtain ⟨rfl, -⟩ := List.cons.inj heq
    rfl

end Equations

theorem passes_skipBetween (offset : Nat) (text : List Char) :
    ∃ passed, Passes ⟨offset, text⟩ passed (skipBetween offset text) := by
  fun_induction skipBetween offset text with
  | case1 => exact ⟨[], Passes.refl _⟩
  | case2 => exact ⟨[], Passes.refl _⟩
  | case3 offset c rest _ _ ih =>
    obtain ⟨passed, hpassed⟩ := ih
    exact ⟨c :: passed, hpassed.cons⟩
  | case4 => exact ⟨[], Passes.refl _⟩

/-- A value stands in the text between the places before and after it. -/
theorem valueAt_standsIn {cursor : Cursor} (h : cursor.StandsIn text) :
    (∃ passed, Passes cursor passed (valueAt cursor).2) ∧
      ∀ value ∈ (valueAt cursor).1, cursor.offset ≤ value.start ∧
        value.stop ≤ (valueAt cursor).2.offset ∧ value.fits text = true := by
  have hblanks := cursor.passes_skipWhile isTagBlank
  have hfirst := hblanks.standsIn h
  -- both kinds of values end where a move from their first character stops
  have hvalue : ∀ after passed, Passes (cursor.skipWhile isTagBlank) passed after →
      (∃ passed, Passes cursor passed after) ∧
        ∀ value ∈ some (Extent.mk (cursor.skipWhile isTagBlank).offset after.offset),
          cursor.offset ≤ value.start ∧ value.stop ≤ after.offset ∧ value.fits text = true := by
    intro after passed hpassed
    refine ⟨⟨_, hblanks.trans hpassed⟩, ?_⟩
    rintro value ⟨⟩
    exact ⟨hblanks.offset_le, le_rfl, fits_of_slice?_eq_some (hpassed.slice?_eq hfirst)⟩
  unfold valueAt
  dsimp only
  split
  · exact ⟨⟨_, hblanks⟩, by simp⟩
  · split
    · obtain ⟨passed, hpassed⟩ := ((cursor.skipWhile isTagBlank).drop 1).passes_skipPast [_]
      exact hvalue _ _ ((passes_drop 1 _).trans hpassed)
    · exact hvalue _ _ (passes_skipWhile _ _)

/-- An attribute stands in the text between the places before and after it. -/
theorem attributeAt_liesIn {first : Char} {more : List Char} {cursor : Cursor}
    (h : cursor.StandsIn text) (hrest : cursor.rest = first :: more) :
    (∃ passed, Passes cursor passed (attributeAt first cursor).2) ∧
      (attributeAt first cursor).1.LiesIn text cursor.offset
        (attributeAt first cursor).2.offset := by
  unfold attributeAt
  dsimp only
  set tail := if first = '=' then [] else (cursor.rest.drop 1).takeWhile inAttributeName with htail
  -- the first character belongs to the name, whatever it is
  have hstarts : first :: tail <+: cursor.rest := by
    rw [htail, hrest, List.prefix_cons_inj]
    split
    · exact List.nil_prefix
    · exact List.takeWhile_prefix _
  have hname := passes_drop_word hstarts
  rw [List.length_cons] at hname
  have hslice := hname.slice?_eq h
  split
  · -- a value follows the equals sign
    have hequals := (passes_skipWhile isTagBlank (cursor.drop (tail.length + 1))).trans
      (passes_drop 1 _)
    obtain ⟨⟨passed, hpassed⟩, hvalue⟩ :=
      valueAt_standsIn (hequals.standsIn (hname.standsIn h))
    refine ⟨⟨_, (hname.trans hequals).trans hpassed⟩, ⟨_, _, hslice, by simp, rfl, le_rfl, ?_, ?_⟩,
      ?_⟩
    · exact (hequals.trans hpassed).offset_le
    · intro value hmem
      exact hequals.offset_le.trans (hvalue value hmem).1
    · intro value hmem
      obtain ⟨hstart, hstop, hfits⟩ := hvalue value hmem
      exact ⟨(hname.trans hequals).offset_le.trans hstart, hstop, hfits⟩
  · -- there is no value
    exact ⟨⟨_, hname⟩, ⟨_, _, hslice, by simp, rfl, le_rfl, le_rfl, by simp⟩, by simp⟩

/-- The attributes of a tag stand in the text between the places before the first of them and after
the tag. -/
theorem attributesAt_standsIn {cursor : Cursor} (h : cursor.StandsIn text) :
    (∃ passed, Passes cursor passed (attributesAt cursor).2) ∧
      AttributesIn text cursor.offset (attributesAt cursor).1 (attributesAt cursor).2.offset := by
  fun_induction attributesAt cursor with
  | case1 cursor here _ =>
    -- the text ends in the tag
    obtain ⟨passed, hpassed⟩ := passes_skipBetween cursor.offset cursor.rest
    exact ⟨⟨passed, hpassed⟩, .nil hpassed.offset_le⟩
  | case2 cursor here _ _ =>
    obtain ⟨passed, hpassed⟩ := passes_skipBetween cursor.offset cursor.rest
    have hmove := hpassed.trans (passes_drop 1 here)
    exact ⟨⟨_, hmove⟩, .nil hmove.offset_le⟩
  | case3 cursor here _ _ =>
    obtain ⟨passed, hpassed⟩ := passes_skipBetween cursor.offset cursor.rest
    have hmove := hpassed.trans (passes_drop 2 here)
    exact ⟨⟨_, hmove⟩, .nil hmove.offset_le⟩
  | case4 cursor here first _ _ _ hhere found more after hmore ih =>
    -- one attribute, then the others
    rw [hmore] at ih
    obtain ⟨passed, hpassed⟩ := passes_skipBetween cursor.offset cursor.rest
    obtain ⟨⟨inner, hinner⟩, hfound⟩ := attributeAt_liesIn (hpassed.standsIn h) hhere
    obtain ⟨⟨later, hlater⟩, hrest⟩ := ih (hinner.standsIn (hpassed.standsIn h))
    refine ⟨⟨_, (hpassed.trans hinner).trans hlater⟩, ?_⟩
    exact (AttributesIn.cons hfound hrest).mono hpassed.offset_le

/-! ### Start tags -/

namespace TagSpan

/-- A span stands in a text: it starts with `<`, its places are boundaries of the text in their
order, its name and its attributes are written where it says. -/
structure StandsIn (text : List Char) (span : TagSpan) : Prop where
  opens : slice? text ⟨span.start, span.start + 1⟩ = some ['<']
  /-- The name is what follows the `<`, in small letters. -/
  name_slice : ∃ written, written ≠ [] ∧ slice? text ⟨span.start + 1, span.nameEnd⟩ = some written ∧
    span.name = String.ofList (lower written)
  start_lt_nameEnd : span.start < span.nameEnd
  nameEnd_le_startTagEnd : span.nameEnd ≤ span.startTagEnd
  startTagEnd_le_stop : span.startTagEnd ≤ span.stop
  stop_le : span.stop ≤ byteSize text
  start_boundary : isBoundary text span.start = true
  nameEnd_boundary : isBoundary text span.nameEnd = true
  startTagEnd_boundary : isBoundary text span.startTagEnd = true
  stop_boundary : isBoundary text span.stop = true
  attributes_in : AttributesIn text span.nameEnd span.attributes span.startTagEnd

/-- The end of an element may be moved back to any later boundary of the text. -/
theorem StandsIn.endAt {text : List Char} {span : TagSpan} {stop : Nat} (h : span.StandsIn text)
    (hle : span.startTagEnd ≤ stop) (hboundary : isBoundary text stop = true)
    (hsize : stop ≤ byteSize text) : StandsIn text { span with stop } where
  opens := h.opens
  name_slice := h.name_slice
  start_lt_nameEnd := h.start_lt_nameEnd
  nameEnd_le_startTagEnd := h.nameEnd_le_startTagEnd
  startTagEnd_le_stop := hle
  stop_le := hsize
  start_boundary := h.start_boundary
  nameEnd_boundary := h.nameEnd_boundary
  startTagEnd_boundary := h.startTagEnd_boundary
  stop_boundary := hboundary
  attributes_in := h.attributes_in

/-- A start tag whose `<` stands in a text stands in the text itself, and so does the place after
it. -/
theorem standsIn_ofStartTag {start : Nat} {first : Char} {rest : List Char}
    (h : (Cursor.mk start ('<' :: first :: rest)).StandsIn text) (hfirst : inTagName first = true) :
    (∃ passed, Passes ⟨start, '<' :: first :: rest⟩ passed (ofStartTag start (first :: rest)).2) ∧
      (ofStartTag start (first :: rest)).1.StandsIn text := by
  have hopen : Passes ⟨start, '<' :: first :: rest⟩ ['<'] ⟨start + 1, first :: rest⟩ := ⟨rfl, rfl⟩
  have hname : Passes ⟨start + 1, first :: rest⟩ _ _ :=
    passes_drop_word (List.takeWhile_prefix inTagName)
  have hname_ne : (first :: rest).takeWhile inTagName ≠ [] := by
    rw [List.takeWhile_cons, if_pos hfirst]
    exact List.cons_ne_nil _ _
  have hinside := hopen.standsIn h
  have hnameEnd := hname.standsIn hinside
  obtain ⟨⟨passed, hpassed⟩, hattributes⟩ := attributesAt_standsIn hnameEnd
  have hafter := hpassed.standsIn hnameEnd
  refine ⟨⟨_, (hopen.trans hname).trans hpassed⟩, ?_⟩
  exact {
    opens := hopen.slice?_eq h
    name_slice := ⟨_, hname_ne, hname.slice?_eq hinside, rfl⟩
    start_lt_nameEnd := (hopen.trans hname).offset_lt (by simp)
    nameEnd_le_startTagEnd := hattributes.le
    startTagEnd_le_stop := le_rfl
    stop_le := hafter.offset_le
    start_boundary := h.isBoundary
    nameEnd_boundary := hnameEnd.isBoundary
    startTagEnd_boundary := hafter.isBoundary
    stop_boundary := hafter.isBoundary
    attributes_in := hattributes }

end TagSpan

end ElementLint.Span
