import ElementLint.Proofs.Edits.Outcome

/-!
# The order of edits

Edits that keep clear of each other and fit their files are all made, in whatever order they come
(`applyEditsIn_perm`). The new text of a file then depends only on the order of those replacements
that start at the same place (`Replacement.SameOrder`). These can only be an insertion and a range
right behind it, and for them the order does matter: once the insertion is made, the offsets of the
range cover the inserted text (`applyEditsIn_perm_inserted_first`).
-/

namespace ElementLint

open Text

variable {loader : Loader} {edits edits' : List Edit}
  {replacements replacements' : List Replacement} {file : String}

namespace Replacement

variable {a b : Replacement}

/-- Two lists that have the replacements of a file which start at one place in the same order. -/
def SameOrder (file : String) (replacements replacements' : List Replacement) : Prop :=
  ∀ place,
    (replacements.filter (·.range.file == file)).filter (·.range.offsets.start == place) =
      (replacements'.filter (·.range.file == file)).filter (·.range.offsets.start == place)

/-- Of two replacements that start at one place and do not overlap one inserts something before the
range of the other. -/
theorem insertsBefore_or (hfile : a.range.file = b.range.file)
    (hoverlaps : a.range.overlaps b.range = false)
    (ha : a.range.offsets.start ≤ a.range.offsets.stop)
    (hb : b.range.offsets.start ≤ b.range.offsets.stop)
    (hstart : a.range.offsets.start = b.range.offsets.start) :
    a.InsertsBefore b ∨ b.InsertsBefore a := by
  by_contra hneither
  rw [not_or] at hneither
  have hba := precedes_of_start_le hfile hoverlaps ha hb hstart.ge hneither.1
  rw [SourceRange.overlaps_comm] at hoverlaps
  have hab := precedes_of_start_le hfile.symm hoverlaps hb ha hstart.le hneither.2
  -- both are insertions, and at the same place
  rw [Precedes] at hab hba
  have hempty : ∀ range : SourceRange, range.offsets.stop ≤ range.offsets.start →
      range.isEmpty = true := fun _ => decide_eq_true
  exact SourceRange.ne_of_overlaps_eq_false hoverlaps (hempty _ (by omega)) (hempty _ (by omega))
    hfile.symm hstart.symm

/-- Where no insertion touches the start of a range, replacements that keep clear of each other
start at different places, so that there is only one order. -/
theorem sameOrder_of_perm (h : replacements.Perm replacements')
    (hapart : EditSelection.Apart replacements)
    (hforward : ∀ a ∈ replacements, a.range.offsets.start ≤ a.range.offsets.stop)
    (htouch : ∀ a ∈ replacements, ∀ b ∈ replacements, a.range.file = b.range.file →
      ¬ a.InsertsBefore b) (file : String) :
    SameOrder file replacements replacements' := by
  intro place
  have hperm := (h.filter (·.range.file == file)).filter (·.range.offsets.start == place)
  have hmem : ∀ a ∈ (replacements.filter (·.range.file == file)).filter
      (·.range.offsets.start == place),
      a ∈ replacements ∧ a.range.file = file ∧ a.range.offsets.start = place := by
    intro a ha
    obtain ⟨ha, hstart⟩ := List.mem_filter.1 ha
    obtain ⟨ha, hfile⟩ := List.mem_filter.1 ha
    exact ⟨ha, beq_iff_eq.1 hfile, beq_iff_eq.1 hstart⟩
  have hapart := (hapart.filter (·.range.file == file)).filter (·.range.offsets.start == place)
  generalize (replacements.filter (·.range.file == file)).filter
    (·.range.offsets.start == place) = found at hperm hmem hapart ⊢
  rcases found with - | ⟨a, - | ⟨b, rest⟩⟩
  · exact hperm.nil_eq
  · exact List.singleton_perm.1 hperm
  · -- two of them would have to touch
    obtain ⟨ha, hafile, hastart⟩ := hmem a (by simp)
    obtain ⟨hb, hbfile, hbstart⟩ := hmem b (by simp)
    have hfile := hafile.trans hbfile.symm
    have hoverlaps := List.rel_of_pairwise_cons hapart List.mem_cons_self
    rcases insertsBefore_or hfile hoverlaps (hforward a ha) (hforward b hb)
      (hastart.trans hbstart.symm) with hinserts | hinserts
    · exact absurd hinserts (htouch a ha b hb hfile)
    · exact absurd hinserts (htouch b hb a ha hfile.symm)

end Replacement

theorem nodup_eraseDups (names : List String) : names.eraseDups.Nodup := by
  induction names using List.reverseRecOn with
  | nil => exact List.nodup_nil
  | append_singleton names name ih =>
    rw [List.eraseDups_append]
    by_cases hmem : name ∈ names
    · have hagain : [name].removeAll names = [] := by simp [List.removeAll, hmem]
      rw [hagain]
      simpa using ih
    · have hnew : ([name].removeAll names).eraseDups = [name] := by
        simp [List.removeAll, hmem, List.eraseDups_cons]
      rw [hnew]
      have hsingle : [name].Nodup := List.pairwise_singleton _ name
      refine List.nodup_append.2 ⟨ih, hsingle, fun other hother _ hname => ?_⟩
      rintro rfl
      exact hmem (List.mem_singleton.1 hname ▸ List.mem_eraseDups.1 hother)

namespace EditSelection

variable {selection selection' : EditSelection}

/-- The files to visit depend on what is to be replaced, not on its order. -/
theorem files_perm (h : selection.replacements.Perm selection'.replacements) :
    selection.files.Perm selection'.files := by
  refine (List.perm_ext_iff_of_nodup (nodup_eraseDups _) (nodup_eraseDups _)).2 fun file => ?_
  rw [List.mem_eraseDups, List.mem_eraseDups, (h.map _).mem_iff]

/-- The replacements of a file, from the one made last to the one made first, are sorted by their
starts. -/
theorem isStableSort_reverse_replacementsOf (selection : EditSelection) (file : String) :
    IsStableSort (·.range.offsets.start)
      (selection.replacements.filter (·.range.file == file)).reverse
      (selection.replacementsOf file).reverse := by
  refine ⟨List.pairwise_reverse.2 (selection.pairwise_start_replacementsOf file), fun place => ?_⟩
  rw [List.filter_reverse, filter_replacementsOf, List.filter_reverse]

/-- The replacements of a file are made in an order that depends only on the order of those which
start at the same place. -/
theorem replacementsOf_eq
    (h : Replacement.SameOrder file selection.replacements selection'.replacements) :
    selection.replacementsOf file = selection'.replacementsOf file := by
  -- a stable sort is determined by the items of each key in their order
  have hsorted := selection.isStableSort_reverse_replacementsOf file
  have hsorted' := selection'.isStableSort_reverse_replacementsOf file
  refine List.reverse_injective (hsorted.unique ⟨hsorted'.ordered, fun place => ?_⟩)
  rw [hsorted'.filter_eq, List.filter_reverse, List.filter_reverse, h place]

theorem editFile_eq_of_sameOrder
    (h : Replacement.SameOrder file selection.replacements selection'.replacements) :
    selection.editFile loader file = selection'.editFile loader file := by
  rw [editFile, editFile, replacementsOf_eq h]

variable {visits visits' : List String} {files files' : FileTable}

/-- The new text of a file depends only on the order of the replacements that start at the same
place. -/
theorem get?_eq_of_sameOrder (hvisits : visits.Perm visits')
    (hfiles : selection.editFiles loader visits .empty = .done files)
    (hfiles' : selection'.editFiles loader visits' .empty = .done files')
    (h : Replacement.SameOrder file selection.replacements selection'.replacements) :
    files.get? file = files'.get? file := by
  obtain ⟨hvisited, hother⟩ := get?_of_editFiles_eq_done hfiles file
  obtain ⟨hvisited', hother'⟩ := get?_of_editFiles_eq_done hfiles' file
  by_cases hmem : file ∈ visits
  · obtain ⟨changed, hchanged, hget⟩ := hvisited hmem
    obtain ⟨changed', hchanged', hget'⟩ := hvisited' (hvisits.mem_iff.1 hmem)
    rw [editFile_eq_of_sameOrder h, hchanged'] at hchanged
    rw [hget, hget', Outcome.done.inj hchanged]
  · rw [hother hmem, hother' (mt hvisits.mem_iff.2 hmem)]

theorem files_eq_of_sameOrder (hvisits : visits.Perm visits')
    (hfiles : selection.editFiles loader visits .empty = .done files)
    (hfiles' : selection'.editFiles loader visits' .empty = .done files')
    (h : ∀ file, Replacement.SameOrder file selection.replacements selection'.replacements) :
    files = files' := by
  have hsame : ∀ file ∈ visits',
      selection.editFile loader file = selection'.editFile loader file :=
    fun file _ => editFile_eq_of_sameOrder (h file)
  have hboth := editFiles_perm hvisits hfiles
  rw [editFiles_congr hsame, hfiles'] at hboth
  exact (Outcome.done.inj hboth).symm

end EditSelection

variable {order order' : EditSelection → List String}

/-- Edits that keep clear of each other and fit their files are all made. -/
theorem exists_applyEditsIn_eq_done (horder : ∀ selection, (order selection).Perm selection.files)
    (hapart : EditSelection.Apart edits.flatten)
    (hfits : ∀ replacement ∈ edits.flatten, replacement.FitsFile loader) :
    ∃ files, EditSelection.editFiles ⟨edits, []⟩ loader (order ⟨edits, []⟩) .empty = .done files ∧
      applyEditsIn order edits loader = .done ⟨edits, [], files⟩ := by
  have hselection := EditSelection.ofEdits_of_apart hapart
  have haccount := accountFor_applyEditsIn horder edits loader
  rw [hselection] at haccount
  obtain ⟨result, hresult⟩ := haccount.exists_done_iff.2 hfits
  obtain ⟨files, hfiles, heq⟩ := Outcome.bind_eq_done hresult
  obtain rfl := Outcome.done.inj heq
  rw [hselection] at hfiles hresult
  exact ⟨files, hfiles, hresult⟩

/-- Edits that keep clear of each other and fit their files are all made, whatever order they come
in. In every order the same files get new texts, and a file gets the same text wherever its
replacements that start at one place come in the same order; where no insertion touches the start of
a range, there is only one such order. -/
theorem applyEditsIn_perm (horder : ∀ selection, (order selection).Perm selection.files)
    (horder' : ∀ selection, (order' selection).Perm selection.files)
    (hperm : edits.Perm edits') (hapart : EditSelection.Apart edits.flatten)
    (hfits : ∀ replacement ∈ edits.flatten, replacement.FitsFile loader) :
    ∃ files files', applyEditsIn order edits loader = .done ⟨edits, [], files⟩ ∧
      applyEditsIn order' edits' loader = .done ⟨edits', [], files'⟩ ∧
      (∀ file, (files.get? file).isSome ↔ (files'.get? file).isSome) ∧
      (∀ file, Replacement.SameOrder file edits.flatten edits'.flatten →
        files.get? file = files'.get? file) ∧
      ((∀ file, Replacement.SameOrder file edits.flatten edits'.flatten) → files = files') ∧
      ((∀ a ∈ edits.flatten, ∀ b ∈ edits.flatten, a.range.file = b.range.file →
        ¬ a.InsertsBefore b) → files = files') := by
  have hapart' : EditSelection.Apart edits'.flatten := by
    refine (hperm.flatten.pairwise_iff fun h => ?_).1 hapart
    rwa [SourceRange.overlaps_comm]
  have hfits' : ∀ replacement ∈ edits'.flatten, replacement.FitsFile loader :=
    fun replacement hmem => hfits replacement (hperm.flatten.mem_iff.2 hmem)
  obtain ⟨files, hfiles, hresult⟩ := exists_applyEditsIn_eq_done horder hapart hfits
  obtain ⟨files', hfiles', hresult'⟩ := exists_applyEditsIn_eq_done horder' hapart' hfits'
  have hreplacements : (EditSelection.mk edits []).replacements.Perm
      (EditSelection.mk edits' []).replacements := hperm.flatten
  have hvisits : (order ⟨edits, []⟩).Perm (order' ⟨edits', []⟩) :=
    ((horder _).trans (EditSelection.files_perm hreplacements)).trans (horder' _).symm
  have heq := EditSelection.files_eq_of_sameOrder hvisits hfiles hfiles'
  refine ⟨files, files', hresult, hresult', fun file => ?_,
    fun file => EditSelection.get?_eq_of_sameOrder hvisits hfiles hfiles', heq, fun htouch => ?_⟩
  · rw [EditSelection.isSome_get?_iff hfiles, EditSelection.isSome_get?_iff hfiles',
      hvisits.mem_iff]
  · refine heq (Replacement.sameOrder_of_perm hperm.flatten hapart (fun a ha => ?_) htouch)
    obtain ⟨contents, -, hfits⟩ := hfits a ha
    exact (fits_iff_isBoundary.1 hfits).1

/-- Ranges that touch each other, and an insertion in another file, in both orders. -/
theorem applyEditsIn_perm_touching :
    let replacement (file : String) (start stop : Nat) (text : String) : Replacement :=
      ⟨⟨file, ⟨0, 0⟩, ⟨0, 0⟩, ⟨start, stop⟩⟩, text⟩
    let edits := [[replacement "a" 1 3 "x", replacement "b" 0 0 "y"], [replacement "a" 3 4 ""]]
    let loader : Loader := .ofTable (.ofList [("a", "aéb"), ("b", "")])
    let backward (selection : EditSelection) : List String := selection.files.reverse
    let files : FileTable := .ofList [("a", "ax"), ("b", "y")]
    edits.Perm edits.reverse ∧ EditSelection.Apart edits.flatten ∧
      (∀ replacement ∈ edits.flatten, replacement.FitsFile loader) ∧
      applyEdits edits loader = .done ⟨edits, [], files⟩ ∧
      applyEditsIn backward edits.reverse loader = .done ⟨edits.reverse, [], files⟩ := by
  intro replacement edits loader backward files
  have hapart : EditSelection.Apart edits.flatten := by
    unfold EditSelection.Apart
    decide +kernel
  have hfits : ∀ replacement ∈ edits.flatten, replacement.FitsFile loader := by
    have hfirst : loader.load "a" = .done "aéb" := by decide +kernel
    have hsecond : loader.load "b" = .done "" := by decide +kernel
    rintro _ (_ | ⟨_, _ | ⟨_, _ | ⟨_, ⟨⟩⟩⟩⟩)
    · exact ⟨"aéb", hfirst, by decide +kernel⟩
    · exact ⟨"", hsecond, by decide +kernel⟩
    · exact ⟨"aéb", hfirst, by decide +kernel⟩
  have htouch : ∀ a ∈ edits.flatten, ∀ b ∈ edits.flatten, a.range.file = b.range.file →
      ¬ a.InsertsBefore b := by
    unfold Replacement.InsertsBefore
    decide +kernel
  have hresult : applyEdits edits loader = .done ⟨edits, [], files⟩ := by cbv
  obtain ⟨made, made', happly, happly', -, -, -, hsame⟩ :=
    applyEditsIn_perm (fun _ => .refl _) (fun selection => selection.files.reverse_perm)
      edits.reverse_perm.symm hapart hfits
  rw [applyEdits, happly, Outcome.done.injEq, EditResult.mk.injEq] at hresult
  obtain ⟨-, -, rfl⟩ := hresult
  exact ⟨edits.reverse_perm.symm, hapart, hfits, happly, hsame htouch ▸ happly'⟩

/-- The same two edits on the same text in both orders. Where the insertion comes first, the range
behind it takes the inserted text away and leaves its own. -/
theorem applyEditsIn_perm_inserted_first :
    let replacement (start stop : Nat) (text : String) : Replacement :=
      ⟨⟨"a", ⟨0, 0⟩, ⟨0, 0⟩, ⟨start, stop⟩⟩, text⟩
    let edits := [[replacement 1 1 "X"], [replacement 1 2 "Y"]]
    let loader : Loader := .ofTable (.ofList [("a", "abc")])
    EditSelection.Apart edits.flatten ∧
      (∀ replacement ∈ edits.flatten, replacement.FitsFile loader) ∧
      edits.Perm edits.reverse ∧
      applyEdits edits loader = .done ⟨edits, [], .ofList [("a", "aYbc")]⟩ ∧
      applyEdits edits.reverse loader = .done ⟨edits.reverse, [], .ofList [("a", "aXYc")]⟩ := by
  intro replacement edits loader
  have hapart : EditSelection.Apart edits.flatten := by
    unfold EditSelection.Apart
    decide +kernel
  have hload : loader.load "a" = .done "abc" := by decide +kernel
  refine ⟨hapart, ?_, edits.reverse_perm.symm, by cbv, by cbv⟩
  rintro _ (_ | ⟨_, _ | ⟨_, ⟨⟩⟩⟩)
  · exact ⟨"abc", hload, by decide +kernel⟩
  · exact ⟨"abc", hload, by decide +kernel⟩

end ElementLint
