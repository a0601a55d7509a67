import ElementLint.Proofs.Edits.Acceptance
import ElementLint.Proofs.Edits.Apply
import ElementLint.Proofs.Edits.Bounds
import Mathlib

/-!
# How applying edits ends

The accepted replacements account for the way in which applying edits ends
(`accountFor_applyEditsIn`):

* it answers exactly if all of them fit their files (`Replacement.FitsFile`), and then the answer
  does not depend on the order in which the files are visited (`EditSelection.editFiles_perm`);
* it fails with an error for which one of them is to blame (`Replacement.FailsWith`); which error
  that is may depend on the order;
* it aborts only if the loader aborts on the file of one of them.

So refused edits, and files that only they name, play no part in it (`applyEditsIn_outcome`), and
making the replacements never aborts (`applyEditsIn_admits`).
-/

namespace ElementLint

open Text

variable {α β : Type} {loader : Loader} {replacement : Replacement} {error : LintError}
  {replacements later : List Replacement}

namespace Replacement

/-- The file of a replacement can be loaded and has its range. -/
def FitsFile (loader : Loader) (replacement : Replacement) : Prop :=
  ∃ contents, loader.load replacement.range.file = .done contents ∧
    replacement.range.offsets.fits contents.toList = true

/-- A replacement is to blame for an error: its file cannot be loaded, or does not have its
range. -/
def FailsWith (loader : Loader) (replacement : Replacement) (error : LintError) : Prop :=
  loader.load replacement.range.file = .failed error ∨
    ∃ contents, loader.load replacement.range.file = .done contents ∧
      replacement.range.offsets.fits contents.toList = false ∧
      error = replacement.misfit contents.toList

/-- Some replacements account for the end of a computation: it answers if they all fit, and any
other end comes from one of them. -/
def AccountFor (loader : Loader) (replacements : List Replacement) : Outcome α → Prop
  | .done _ => ∀ replacement ∈ replacements, replacement.FitsFile loader
  | .failed error => ∃ replacement ∈ replacements, replacement.FailsWith loader error
  | .aborted message => ∃ replacement ∈ replacements,
      loader.load replacement.range.file = .aborted message

theorem FitsFile.not_failsWith (h : replacement.FitsFile loader) :
    ¬ replacement.FailsWith loader error := by
  obtain ⟨contents, hload, hfits⟩ := h
  rintro (hfailed | ⟨contents', hload', hmisfit, -⟩)
  · rw [hload] at hfailed
    contradiction
  · obtain rfl := Outcome.done.inj (hload.symm.trans hload')
    rw [hfits] at hmisfit
    contradiction

theorem FitsFile.load_ne_aborted (h : replacement.FitsFile loader) (message : Option String) :
    loader.load replacement.range.file ≠ .aborted message := by
  obtain ⟨contents, hload, -⟩ := h
  rw [hload]
  simp

/-- A computation for which replacements account answers exactly if they all fit. -/
theorem AccountFor.exists_done_iff {outcome : Outcome α}
    (h : AccountFor loader replacements outcome) :
    (∃ value, outcome = .done value) ↔
      ∀ replacement ∈ replacements, replacement.FitsFile loader := by
  constructor
  · rintro ⟨value, rfl⟩
    exact h
  · intro hfits
    cases outcome with
    | done value => exact ⟨value, rfl⟩
    | failed error =>
      obtain ⟨replacement, hmem, hfails⟩ := h
      exact absurd hfails (hfits replacement hmem).not_failsWith
    | aborted message =>
      obtain ⟨replacement, hmem, haborted⟩ := h
      exact absurd haborted ((hfits replacement hmem).load_ne_aborted message)

/-- Two computations in a row end as one of them does. -/
theorem AccountFor.bind {first : Outcome α} {next : α → Outcome β}
    (hfirst : AccountFor loader replacements first)
    (hnext : ∀ value, AccountFor loader later (next value)) :
    AccountFor loader (replacements ++ later) (first.bind next) := by
  cases first with
  | failed error =>
    obtain ⟨replacement, hmem, hfails⟩ := hfirst
    exact ⟨replacement, List.mem_append_left _ hmem, hfails⟩
  | aborted message =>
    obtain ⟨replacement, hmem, haborted⟩ := hfirst
    exact ⟨replacement, List.mem_append_left _ hmem, haborted⟩
  | done value =>
    rw [Outcome.bind]
    have h := hnext value
    generalize next value = second at h ⊢
    cases second with
    | done answer => exact List.forall_mem_append.2 ⟨hfirst, h⟩
    | failed error =>
      obtain ⟨replacement, hmem, hfails⟩ := h
      exact ⟨replacement, List.mem_append_right _ hmem, hfails⟩
    | aborted message =>
      obtain ⟨replacement, hmem, haborted⟩ := h
      exact ⟨replacement, List.mem_append_right _ hmem, haborted⟩

/-- It does not matter in which order replacements are listed, nor how often. -/
theorem AccountFor.of_mem_iff {outcome : Outcome α} (h : AccountFor loader replacements outcome)
    (hmem : ∀ replacement, replacement ∈ replacements ↔ replacement ∈ later) :
    AccountFor loader later outcome := by
  cases outcome <;> simpa only [AccountFor, hmem] using h

end Replacement

/-! ### Files -/

namespace EditSelection

variable {selection : EditSelection} {file : String} {files files' : List String}

theorem mem_files : file ∈ selection.files ↔ file ∈ selection.replacements.map (·.range.file) :=
  List.mem_eraseDups

theorem mem_replacementsOf : replacement ∈ selection.replacementsOf file ↔
    replacement ∈ selection.replacements ∧ replacement.range.file = file := by
  rw [(selection.replacementsOf_perm file).mem_iff, List.mem_filter, beq_iff_eq]

/-- The replacements of a file account for the end of changing it. -/
theorem accountFor_editFile (hapart : Apart selection.replacements) (loader : Loader)
    (hfile : file ∈ selection.files) :
    Replacement.AccountFor loader (selection.replacementsOf file)
      (selection.editFile loader file) := by
  -- some replacement names the file, and that one is to blame if it cannot be loaded
  obtain ⟨first, hfirst, rfl⟩ := List.mem_map.1 (mem_files.1 hfile)
  have hfirst := mem_replacementsOf.2 ⟨hfirst, rfl⟩
  rw [editFile]
  cases hload : loader.load first.range.file with
  | failed error => exact ⟨first, hfirst, .inl hload⟩
  | aborted message => exact ⟨first, hfirst, hload⟩
  | done contents =>
    have hloads : ∀ replacement ∈ selection.replacementsOf first.range.file,
        loader.load replacement.range.file = .done contents := fun replacement hmem => by
      rw [file_eq_of_mem_replacementsOf hmem, hload]
    have hroom := pairwise_leavesRoom_replacementsOf hapart first.range.file
    rw [Outcome.bind]
    generalize selection.replacementsOf first.range.file = pending at hloads hroom ⊢
    rcases (Leaves.nil contents.toList).applyReplacements (by simp) hroom with
      ⟨hfits, changed, hchanged, -⟩ | ⟨replacement, hmem, hmisfit, hfailed⟩
    · rw [hchanged]
      exact fun replacement hmem => ⟨contents, hloads replacement hmem, hfits replacement hmem⟩
    · rw [hfailed]
      exact ⟨replacement, hmem, .inr ⟨contents, hloads replacement hmem, hmisfit, rfl⟩⟩

/-- The replacements of some files account for the end of changing these files. -/
theorem accountFor_editFiles (hapart : Apart selection.replacements) (loader : Loader)
    (hfiles : ∀ file ∈ files, file ∈ selection.files) (table : FileTable) :
    Replacement.AccountFor loader (files.flatMap selection.replacementsOf)
      (selection.editFiles loader files table) := by
  induction files generalizing table with
  | nil => simp [editFiles, Replacement.AccountFor]
  | cons first rest ih =>
    rw [editFiles, List.flatMap_cons]
    refine (accountFor_editFile hapart loader (hfiles first List.mem_cons_self)).bind fun text => ?_
    exact ih (fun file hmem => hfiles file (List.mem_cons_of_mem _ hmem)) _

/-- The table of new texts is the same for all orders of the files. -/
theorem editFiles_perm (h : files.Perm files') {result : FileTable}
    (hresult : selection.editFiles loader files .empty = .done result) :
    selection.editFiles loader files' .empty = .done result := by
  have htexts : ∀ file ∈ files, ∃ changed, selection.editFile loader file = .done changed :=
    fun file hmem => ((get?_of_editFiles_eq_done hresult file).1 hmem).imp fun _ => And.left
  choose! textOf htextOf using htexts
  have htable := FileTable.ofList_map_perm h textOf
  rw [FileTable.ofList, FileTable.ofList, List.foldl_map, List.foldl_map] at htable
  rw [editFiles_eq htextOf] at hresult
  rw [editFiles_eq fun file hmem => htextOf file (h.mem_iff.2 hmem), ← htable, hresult]

/-- The files that were visited have new texts. -/
theorem isSome_get?_iff {result : FileTable}
    (h : selection.editFiles loader files .empty = .done result) :
    (result.get? file).isSome ↔ file ∈ files := by
  obtain ⟨hvisited, hother⟩ := get?_of_editFiles_eq_done h file
  by_cases hmem : file ∈ files
  · obtain ⟨changed, -, hget⟩ := hvisited hmem
    simp [hget, hmem]
  · rw [hother hmem]
    exact iff_of_false Bool.false_ne_true hmem

end EditSelection

/-! ### Whole runs -/

variable {order : EditSelection → List String}

/-- The accepted replacements account for the end of applying edits. -/
theorem accountFor_applyEditsIn (horder : ∀ selection, (order selection).Perm selection.files)
    (edits : List Edit) (loader : Loader) :
    Replacement.AccountFor loader (EditSelection.ofEdits edits).replacements
      (applyEditsIn order edits loader) := by
  set selection := EditSelection.ofEdits edits
  have hfiles := EditSelection.accountFor_editFiles (EditSelection.apart_ofEdits edits) loader
    (fun file hmem => (horder selection).subset hmem) .empty
  have hresult : ∀ files, Replacement.AccountFor loader []
      (Outcome.done (EditResult.mk selection.accepted selection.refused files)) := by
    simp [Replacement.AccountFor]
  -- the replacements of all visited files are the accepted ones
  refine (hfiles.bind hresult).of_mem_iff fun replacement => ?_
  rw [List.append_nil, List.mem_flatMap]
  constructor
  · rintro ⟨file, -, hmem⟩
    exact (EditSelection.mem_replacementsOf.1 hmem).1
  · intro hmem
    have hfile := EditSelection.mem_files.2 (List.mem_map_of_mem hmem)
    exact ⟨_, (horder selection).mem_iff.2 hfile, EditSelection.mem_replacementsOf.2 ⟨hmem, rfl⟩⟩

/-- The answer does not depend on the order in which the files are visited. -/
theorem applyEditsIn_eq_done_of_order {order' : EditSelection → List String}
    (horder : ∀ selection, (order selection).Perm selection.files)
    (horder' : ∀ selection, (order' selection).Perm selection.files) {edits : List Edit}
    {result : EditResult} (h : applyEditsIn order edits loader = .done result) :
    applyEditsIn order' edits loader = .done result := by
  obtain ⟨files, hfiles, hresult⟩ := Outcome.bind_eq_done h
  have hperm := (horder (EditSelection.ofEdits edits)).trans (horder' _).symm
  rw [applyEditsIn, EditSelection.editFiles_perm hperm hfiles]
  exact hresult

/-- The files that accepted replacements name have new texts. -/
theorem isSome_get?_files_iff (horder : ∀ selection, (order selection).Perm selection.files)
    {edits : List Edit} {result : EditResult}
    (h : applyEditsIn order edits loader = .done result) (file : String) :
    (result.files.get? file).isSome ↔
      file ∈ (EditSelection.ofEdits edits).replacements.map (·.range.file) := by
  obtain ⟨files, hfiles, hresult⟩ := Outcome.bind_eq_done h
  obtain rfl := Outcome.done.inj hresult
  rw [EditSelection.isSome_get?_iff hfiles, (horder _).mem_iff, EditSelection.mem_files]

/-- Whenever a replacement is made, both of its places are in the text as it is then, and so are the
characters in which they fall, the one of the start not behind the one of the end. So applying edits
aborts only if the loader does so on a file that an accepted edit names. -/
theorem applyEditsIn_admits (horder : ∀ selection, (order selection).Perm selection.files)
    (edits : List Edit) (loader : Loader) :
    (∀ file contents made next text,
      (EditSelection.ofEdits edits).Reaches loader file contents made next text →
        Admits text next.range.offsets) ∧
      ∀ message, applyEditsIn order edits loader = .aborted message →
        ∃ replacement ∈ (EditSelection.ofEdits edits).replacements,
          loader.load replacement.range.file = .aborted message := by
  refine ⟨fun file contents made next text h => h.admits (EditSelection.apart_ofEdits edits), ?_⟩
  intro message hmessage
  have h := accountFor_applyEditsIn horder edits loader
  rwa [hmessage] at h

/-- An insertion has moved the text by one byte when the range behind it is replaced, so that the
end of the range falls into a character; the run goes on. It aborts where the loader does. -/
theorem applyEditsIn_admits_shifted :
    let replacement (start stop : Nat) (text : String) : Replacement :=
      ⟨⟨"a", ⟨0, 0⟩, ⟨0, 0⟩, ⟨start, stop⟩⟩, text⟩
    let edits := [[replacement 1 1 "x"], [replacement 1 3 "y"]]
    let loader : Loader := .ofTable (.ofList [("a", "aéb")])
    let broken : Loader := ⟨fun _ => .aborted (some "gone"), .ok []⟩
    applyEdits edits loader = .done ⟨edits, [], .ofList [("a", "ayéb")]⟩ ∧
      (EditSelection.ofEdits edits).Reaches loader "a" "aéb" [replacement 1 1 "x"]
        (replacement 1 3 "y") "axéb".toList ∧
      isBoundary "axéb".toList 3 = false ∧ Admits "axéb".toList ⟨1, 3⟩ ∧
      applyEdits edits broken = .aborted (some "gone") ∧
      ∃ replacement ∈ (EditSelection.ofEdits edits).replacements,
        broken.load replacement.range.file = .aborted (some "gone") := by
  intro replacement edits loader broken
  have hsorted : (EditSelection.ofEdits edits).replacementsOf "a" =
      [replacement 1 1 "x", replacement 1 3 "y"] := by
    cbv
  have hreaches : (EditSelection.ofEdits edits).Reaches loader "a" "aéb" [replacement 1 1 "x"]
      (replacement 1 3 "y") "axéb".toList :=
    ⟨by decide +kernel, ⟨[], hsorted⟩, by decide +kernel, by decide +kernel⟩
  have hbroken : applyEdits edits broken = .aborted (some "gone") := by cbv
  obtain ⟨hadmits, -⟩ := applyEditsIn_admits (fun _ => .refl _) edits loader
  obtain ⟨-, haborts⟩ := applyEditsIn_admits (fun _ => .refl _) edits broken
  exact ⟨by cbv, hreaches, by decide +kernel, hadmits _ _ _ _ _ hreaches, hbroken,
    haborts _ hbroken⟩

/-- Applying edits answers exactly if all accepted replacements fit their files. Whether it does and
what it answers is the same for all orders of the files, and the answer has new texts for the files
that accepted replacements name. An accepted replacement is to blame for every other end; refused
edits and the files that only they name have no effect. -/
theorem applyEditsIn_outcome (horder : ∀ selection, (order selection).Perm selection.files)
    (edits : List Edit) (loader : Loader) :
    ((∃ result, applyEditsIn order edits loader = .done result) ↔
        ∀ replacement ∈ (EditSelection.ofEdits edits).replacements,
          replacement.FitsFile loader) ∧
      (∀ order' : EditSelection → List String,
        (∀ selection, (order' selection).Perm selection.files) → ∀ result,
          applyEditsIn order' edits loader = .done result ↔
            applyEditsIn order edits loader = .done result) ∧
      (∀ result, applyEditsIn order edits loader = .done result → ∀ file,
        (result.files.get? file).isSome ↔
          file ∈ (EditSelection.ofEdits edits).replacements.map (·.range.file)) ∧
      (∀ error, applyEditsIn order edits loader = .failed error →
        ∃ replacement ∈ (EditSelection.ofEdits edits).replacements,
          replacement.FailsWith loader error) ∧
      (∀ message, applyEditsIn order edits loader = .aborted message →
        ∃ replacement ∈ (EditSelection.ofEdits edits).replacements,
          loader.load replacement.range.file = .aborted message) ∧
      (∀ other : Loader,
        (∀ replacement ∈ (EditSelection.ofEdits edits).replacements,
          other.load replacement.range.file = loader.load replacement.range.file) →
        applyEditsIn order edits other = applyEditsIn order edits loader) ∧
      applyEditsIn (fun _ => order (EditSelection.ofEdits edits))
          (EditSelection.ofEdits edits).accepted loader =
        (applyEditsIn order edits loader).bind fun result =>
          .done { result with incompatible := [] } := by
  have haccount := accountFor_applyEditsIn horder edits loader
  refine ⟨haccount.exists_done_iff, fun order' horder' result => ?_,
    fun result h => isSome_get?_files_iff horder h, fun error h => ?_, fun message h => ?_,
    fun other hother => ?_, EditSelection.applyEditsIn_accepted order edits loader⟩
  · exact ⟨applyEditsIn_eq_done_of_order horder' horder,
      applyEditsIn_eq_done_of_order horder horder'⟩
  · rwa [h] at haccount
  · rwa [h] at haccount
  -- only the files of accepted replacements are loaded
  · have hfiles : ∀ file ∈ order (EditSelection.ofEdits edits),
        (EditSelection.ofEdits edits).editFile other file =
          (EditSelection.ofEdits edits).editFile loader file := by
      intro file hfile
      obtain ⟨replacement, hmem, rfl⟩ :=
        List.mem_map.1 (EditSelection.mem_files.1 ((horder _).subset hfile))
      rw [EditSelection.editFile, hother replacement hmem, EditSelection.editFile]
    rw [applyEditsIn, EditSelection.editFiles_congr hfiles, applyEditsIn]

/-- A refused edit names a file that cannot be loaded, and applying the edits answers all the same,
whichever file comes first. If accepted edits do not fit, the order of their files decides which of
them is to blame. -/
theorem applyEditsIn_outcome_refused :
    let replacement (file : String) (start stop : Nat) (text : String) : Replacement :=
      ⟨⟨file, ⟨0, 0⟩, ⟨0, 0⟩, ⟨start, stop⟩⟩, text⟩
    let edits := [[replacement "a" 0 1 "x"], [replacement "b" 2 2 "y"],
      [replacement "a" 0 2 "", replacement "c" 5 4 ""]]
    let misfits := [[replacement "b" 1 1 "y"], [replacement "c" 0 0 ""]]
    let loader : Loader := .ofTable (.ofList [("a", "ab"), ("b", "é")])
    let backward (selection : EditSelection) : List String := selection.files.reverse
    let result : EditResult := ⟨[[replacement "a" 0 1 "x"], [replacement "b" 2 2 "y"]],
      [[replacement "a" 0 2 "", replacement "c" 5 4 ""]], .ofList [("a", "xb"), ("b", "éy")]⟩
    let misfit : LintError := .invalidEdit "range 1..1 does not fit b (2 bytes)"
    applyEdits edits loader = .done result ∧ applyEditsIn backward edits loader = .done result ∧
      (result.files.get? "c").isSome = false ∧
      applyEdits misfits loader = .failed misfit ∧
      applyEditsIn backward misfits loader = .failed (.notLoaded "c" .unknownName) ∧
      (∃ replacement ∈ (EditSelection.ofEdits misfits).replacements,
        replacement.FailsWith loader misfit) ∧
      ∃ replacement ∈ (EditSelection.ofEdits misfits).replacements,
        replacement.FailsWith loader (.notLoaded "c" .unknownName) := by
  intro replacement edits misfits loader backward result misfit
  have hforward : ∀ selection : EditSelection, selection.files.Perm selection.files :=
    fun _ => .refl _
  have hbackward : ∀ selection, (backward selection).Perm selection.files :=
    fun selection => selection.files.reverse_perm
  -- the third edit overlaps the first one and is refused, so the file `c` is never loaded
  have hselection : EditSelection.ofEdits edits = ⟨result.applied, result.incompatible⟩ := by
    decide +kernel
  have hresult : applyEdits edits loader = .done result := by cbv
  have hmisfit : applyEdits misfits loader = .failed misfit := by cbv
  have hmissing : applyEditsIn backward misfits loader =
      .failed (.notLoaded "c" .unknownName) := by
    cbv
  obtain ⟨-, horder, hnew, -⟩ := applyEditsIn_outcome hforward edits loader
  obtain ⟨-, -, -, hblame, -⟩ := applyEditsIn_outcome hforward misfits loader
  obtain ⟨-, -, -, hblame', -⟩ := applyEditsIn_outcome hbackward misfits loader
  refine ⟨hresult, (horder backward hbackward result).2 hresult, ?_, hmisfit, hmissing,
    hblame _ hmisfit, hblame' _ hmissing⟩
  rw [Bool.eq_false_iff, ne_eq, hnew result hresult "c", hselection]
  decide +kernel

end ElementLint
