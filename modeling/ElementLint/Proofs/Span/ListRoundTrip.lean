import ElementLint.Proofs.Span.RoundTrip
import ElementLint.Proofs.Span.WrittenList

/-!
# Scanning written lists

A scan of a written run finds its elements where they were written, with or without the end tags of
the items in it (`Written.Run.toList_scan`).

* `Written.Run.markScan_write` — the tags of a written run are found in order.
* `Written.SettlesAt` — an item that is still open is ended by the next tag of its list, which is
  a start tag of an item (`Written.SettlesAt.add_opening`) or the end tag of the list
  (`Written.SettlesAt.add_closing`).
* `Written.Run.foldl_add_marks` — after a run its elements are where `Written.Run.spans` says, and
  at most its last item is still open.
-/

namespace ElementLint.Span.Written

open Text

variable {setting : Setting} {kind : ListKind}

/-! ### Names -/

theorem ParentName.isPlainName (name : ParentName setting) : IsPlainName name.text := by
  cases name with
  | custom name => exact name.isPlainName
  | _ => exact ⟨⟨_, _, rfl, rfl⟩, List.all_eq_true.1 rfl, rfl, rfl⟩

theorem ItemName.isPlainName (name : ItemName kind) : IsPlainName name.text := by
  cases name <;> exact ⟨⟨_, _, rfl, rfl⟩, List.all_eq_true.1 rfl, rfl, rfl⟩

namespace Run

/-! ### The tags of a run -/

/-- The tags of a run that is written at a place. -/
def marks {setting : Setting} (place : Nat) : Run setting → List Mark
  | .nil => []
  | .text run _ rest => rest.marks (place + byteSize run)
  | .comment run _ rest => rest.marks (place + byteSize (writeComment run))
  | .element name attributes children rest =>
    let inside := place + byteSize (openingTag name.text attributes)
    let behind := inside + byteSize children.write
    let stop := behind + byteSize (closingTag name.text)
    .opening (tagSpan place name.text attributes inside) true ::
      (children.marks inside ++
        (.closing (String.ofList name.text) ⟨behind, stop⟩ :: rest.marks stop))
  | .item name attributes ended children rest =>
    let inside := place + byteSize (openingTag name.text attributes)
    let behind := inside + byteSize children.write
    let after := behind + byteSize (itemEnd name ended)
    .opening (tagSpan place name.text attributes inside) true ::
      (children.marks inside ++
        ((if ended then [.closing (String.ofList name.text) ⟨behind, after⟩] else []) ++
          rest.marks after))

theorem scan_itemEnd (name : ItemName kind) (ended : Bool) (place : Nat) (rest : List Char) :
    Mark.scan ⟨place, itemEnd name ended ++ rest⟩ =
      (if ended then
        [.closing (String.ofList name.text) ⟨place, place + byteSize (itemEnd name ended)⟩]
      else []) ++
        Mark.scan ⟨place + byteSize (itemEnd name ended), rest⟩ := by
  cases ended with
  | false => rfl
  | true => exact scan_closingTag name.isPlainName place rest

/-- The tags of a written run are found in order. -/
theorem markScan_write (run : Run setting) (place : Nat) (rest : List Char) :
    Mark.scan ⟨place, run.write ++ rest⟩ =
      run.marks place ++ Mark.scan ⟨place + byteSize run.write, rest⟩ := by
  induction run generalizing place rest with
  | nil => rfl
  | text run hrun more ih =>
    rw [write, List.append_assoc, scan_text hrun, ih, byteSize_append, Nat.add_assoc]
    rfl
  | comment run hrun more ih =>
    rw [write, List.append_assoc, scan_comment hrun, ih, byteSize_append, Nat.add_assoc]
    rfl
  | element name attributes children more ihChildren ihMore =>
    rw [write, List.append_assoc, scan_openingTag name.isPlainName, List.append_assoc, ihChildren,
      List.append_assoc, scan_closingTag name.isPlainName, ihMore]
    simp only [marks, byteSize_append, List.cons_append, List.append_assoc, Nat.add_assoc]
  | item name attributes ended children more ihChildren ihMore =>
    rw [write, List.append_assoc, scan_openingTag name.isPlainName, List.append_assoc, ihChildren,
      List.append_assoc, scan_itemEnd, ihMore]
    simp only [marks, byteSize_append, List.cons_append, List.append_assoc, Nat.add_assoc]

end Run

/-! ### Items that are left open -/

/-- Whether a run of a setting may stand in the innermost open element. -/
def Setting.Fits : Setting → List OpenTag → Prop
  | .free, opened => ∀ tag ∈ opened.head?, tag.name ≠ "p"
  | .inList kind, opened =>
    ∃ (name : ParentName (.inList kind)) (index : Nat) (outer : List OpenTag),
      opened = ⟨index, String.ofList name.text⟩ :: outer

/-- `SettlesAt place setting before settled`: the elements `before` become the elements `settled`
when what is right in a list ends at a place. Either there is nothing to end, or one item. -/
inductive SettlesAt (place : Nat) : Setting → Nesting → Nesting → Prop where
  | refl {setting : Setting} (nesting : Nesting) : SettlesAt place setting nesting nesting
  | openItem {kind : ListKind} (name : ItemName kind) (index : Nat) (spans : Array TagSpan)
      (opened : List OpenTag) :
      SettlesAt place (.inList kind) ⟨spans, ⟨index, String.ofList name.text⟩ :: opened⟩
        ⟨spans.modify index ({ · with stop := place }), opened⟩

variable {place : Nat} {before settled : Nesting} {spans : Array TagSpan} {opened : List OpenTag}

/-- Outside of lists nothing is left to end. -/
theorem SettlesAt.eq_of_free (hsettles : SettlesAt place .free before settled) :
    before = settled := by
  cases hsettles
  rfl

/-- The start tag of an element whose end tag is always written ends nothing. -/
theorem closeImplied_parent (name : ParentName setting) (hfits : Setting.free.Fits opened) :
    Nesting.closeImplied ⟨spans, opened⟩ (String.ofList name.text) place = ⟨spans, opened⟩ := by
  have hparagraph : Nesting.splitImplied ["p"] [] opened = none := by
    cases opened with
    | nil => rfl
    | cons tag outer => simpa [Nesting.splitImplied] using hfits tag rfl
  rw [Nesting.closeImplied]
  cases name with
  | custom name =>
    have himplied : impliedEnd (String.ofList name.text) = none := name.no_impliedEnd
    rw [ParentName.text, himplied]
  | menu => rfl
  | _ => simp only [ParentName.text, impliedEnd, hparagraph]

/-- The start tag of an item ends the item before it if that is still open, and nothing that is
open around the list. -/
theorem SettlesAt.closeImplied (name : ItemName kind)
    (hsettles : SettlesAt place (.inList kind) before ⟨spans, opened⟩)
    (hfits : (Setting.inList kind).Fits opened) :
    before.closeImplied (String.ofList name.text) place = ⟨spans, opened⟩ := by
  cases hsettles with
  | refl =>
    obtain ⟨list, index, outer, rfl⟩ := hfits
    cases list <;> cases name <;> rfl
  | openItem left index spans opened => cases left <;> cases name <;> rfl

/-- The end tag of an element ends what is still open right in it. -/
theorem SettlesAt.add_closing (name : ParentName setting) (extent : Extent) (index : Nat)
    (outer : List OpenTag)
    (hsettles : SettlesAt extent.start setting before
      ⟨spans, ⟨index, String.ofList name.text⟩ :: outer⟩) :
    before.add (.closing (String.ofList name.text) extent) =
      Nesting.add ⟨spans, ⟨index, String.ofList name.text⟩ :: outer⟩
        (.closing (String.ofList name.text) extent) := by
  cases hsettles with
  | refl => rfl
  | openItem left => cases left <;> cases name <;> rfl

theorem add_opening_parent (name : ParentName setting) (attributes : List Attribute)
    (place stop : Nat) (spans : Array TagSpan) (hfits : Setting.free.Fits opened) :
    Nesting.add ⟨spans, opened⟩ (.opening (tagSpan place name.text attributes stop) true) =
      ⟨spans ++ [tagSpan place name.text attributes stop].toArray,
        ⟨spans.size, String.ofList name.text⟩ :: opened⟩ := by
  rw [Nesting.add, Nesting.enter]
  dsimp only [tagSpan]
  rw [closeImplied_parent name hfits]
  simp

theorem SettlesAt.add_opening (name : ItemName kind) (attributes : List Attribute) (stop : Nat)
    (hsettles : SettlesAt place (.inList kind) before ⟨spans, opened⟩)
    (hfits : (Setting.inList kind).Fits opened) :
    before.add (.opening (tagSpan place name.text attributes stop) true) =
      ⟨spans ++ [tagSpan place name.text attributes stop].toArray,
        ⟨spans.size, String.ofList name.text⟩ :: opened⟩ := by
  rw [Nesting.add, Nesting.enter]
  dsimp only [tagSpan]
  rw [hsettles.closeImplied name hfits]
  simp

/-- The children of an element may stand in it: it is no paragraph, which a list would end. -/
theorem ParentName.fits (name : ParentName setting) (index : Nat) (outer : List OpenTag) :
    setting.Fits (⟨index, String.ofList name.text⟩ :: outer) := by
  cases name with
  | custom name =>
    rintro _ ⟨⟩ (hparagraph : String.ofList name.text = "p")
    have himplied : impliedEnd (String.ofList name.text) = none := name.no_impliedEnd
    rw [hparagraph] at himplied
    contradiction
  | ul => exact ⟨.ul, index, outer, rfl⟩
  | ol => exact ⟨.ol, index, outer, rfl⟩
  | menu => exact ⟨.menu, index, outer, rfl⟩
  | dl => exact ⟨.dl, index, outer, rfl⟩

theorem ItemName.fits (name : ItemName kind) (index : Nat) (outer : List OpenTag) :
    Setting.free.Fits (⟨index, String.ofList name.text⟩ :: outer) := by
  have hname : String.ofList name.text ≠ "p" := by cases name <;> decide
  rintro _ ⟨⟩
  exact hname

namespace Run

theorem foldl_add_itemEnd (name : ItemName kind) (ended : Bool) (extent : Extent) (stop : Nat)
    (span : TagSpan) (spans : Array TagSpan) (inner : List TagSpan) (opened : List OpenTag) :
    SettlesAt stop (.inList kind)
      ((if ended then [.closing (String.ofList name.text) extent] else []).foldl Nesting.add
        ⟨spans ++ (span :: inner).toArray, ⟨spans.size, String.ofList name.text⟩ :: opened⟩)
      ⟨spans ++ ({ span with stop := if ended then extent.stop else stop } :: inner).toArray,
        opened⟩ := by
  cases ended with
  | true =>
    rw [if_pos rfl, if_pos rfl, List.foldl_cons, add_closing]
    exact .refl _
  | false =>
    rw [if_neg Bool.false_ne_true, if_neg Bool.false_ne_true, List.foldl_nil,
      ← modify_append_cons spans span inner fun span => { span with stop := stop }]
    exact .openItem name _ _ _

/-- After a run its elements are where it was written, and at most its last item is open: that ends
where the run does. If an item before the run is open, it ends at the first start tag of the run. -/
theorem foldl_add_marks (run : Run setting) (place : Nat) (before : Nesting)
    (spans : Array TagSpan) (opened : List OpenTag) (hfits : setting.Fits opened)
    (hbefore : SettlesAt (run.firstTag place) setting before ⟨spans, opened⟩) :
    SettlesAt (place + byteSize run.write) setting ((run.marks place).foldl Nesting.add before)
      ⟨spans ++ (run.spans place).toArray, opened⟩ := by
  have happend : ∀ (spans : Array TagSpan) (first second : List TagSpan),
      spans ++ first.toArray ++ second.toArray = spans ++ (first ++ second).toArray := by
    simp
  induction run generalizing place before spans opened with
  | nil => simpa [marks, Run.spans, firstTag, write] using hbefore
  | text run hrun more ih =>
    rw [write, byteSize_append, ← Nat.add_assoc]
    exact ih _ _ _ _ hfits hbefore
  | comment run hrun more ih =>
    rw [write, byteSize_append, ← Nat.add_assoc]
    exact ih _ _ _ _ hfits hbefore
  | element name attributes children more ihChildren ihMore =>
    let inside := place + byteSize (openingTag name.text attributes)
    let stop := inside + byteSize children.write + byteSize (closingTag name.text)
    have hchildren := ihChildren inside _
      (spans ++ [tagSpan place name.text attributes inside].toArray) _
      (name.fits spans.size opened) (.refl _)
    have hmore := ihMore stop _
      (spans ++ (tagSpan place name.text attributes stop :: children.spans inside).toArray) _ hfits
      (.refl _)
    -- what is still open in the element is ended by its end tag
    rw [hbefore.eq_of_free, marks, List.foldl_cons, add_opening_parent name attributes _ _ _ hfits,
      List.foldl_append, List.foldl_cons, hchildren.add_closing name, happend,
      List.singleton_append, add_closing]
    rw [happend] at hmore
    simp only [write, byteSize_append, ← Nat.add_assoc]
    exact hmore
  | item name attributes ended children more ihChildren ihMore =>
    rw [firstTag] at hbefore
    let inside := place + byteSize (openingTag name.text attributes)
    have hchildren := ihChildren inside _
      (spans ++ [tagSpan place name.text attributes inside].toArray) _
      (name.fits spans.size opened) (.refl _)
    let behind := inside + byteSize children.write
    let after := behind + byteSize (itemEnd name ended)
    have hmore := ihMore after _ _ _ hfits
      (foldl_add_itemEnd name ended ⟨behind, after⟩ (more.firstTag after)
        (tagSpan place name.text attributes inside) spans (children.spans inside) opened)
    rw [marks, List.foldl_cons, hbefore.add_opening name attributes _ hfits, List.foldl_append,
      hchildren.eq_of_free, happend, List.singleton_append, List.foldl_append]
    rw [happend] at hmore
    simp only [write, byteSize_append, ← Nat.add_assoc]
    exact hmore

/-- A scan finds the elements of a written run where they were written. -/
theorem toList_scan (run : Run .free) : (TagSpan.scan run.write).toList = run.spans 0 := by
  have hmarks : Mark.scan ⟨0, run.write⟩ = run.marks 0 := by
    have h := run.markScan_write 0 []
    rw [List.append_nil] at h
    rw [h, Mark.scan, dif_pos rfl, List.append_nil]
  have hnesting := run.foldl_add_marks 0 .empty #[] [] (by simp [Setting.Fits]) (.refl _)
  rw [TagSpan.scan, hmarks, hnesting.eq_of_free]
  simp [Nesting.finish, Nesting.endAt]

end Run

end ElementLint.Span.Written
