import ElementLint.Proofs.Edits.Acceptance
import ElementLint.Proofs.Edits.Weave
import ElementLint.Proofs.Loader.FileTable

/-!
# Applying insertions

Edits that only insert into the files of a table can always be applied over that table
(`applyEditsIn_eq_insertInto`): the result is the same for every order in which the files are
visited and every loader under the table. `EditResult.InsertsInto` says what the result is.
-/

namespace ElementLint

open Text

variable {contents : FileTable} {edits : List Edit} {replacements : List Replacement}

/-- A loader that answers the files of a table. -/
def Loader.Serves (loader : Loader) (contents : FileTable) : Prop :=
  ∀ name text, contents.get? name = some text → loader.load name = .done text

/-- A table over a loader serves its files. -/
theorem Loader.serves_overlay (contents : FileTable) (fallback : Loader) :
    (Loader.overlay contents fallback).Serves contents := by
  intro name text h
  simp [Loader.overlay, h]

/-- Edits that only insert, into files of a table. -/
def InsertIntoFiles (contents : FileTable) (edits : List Edit) : Prop :=
  ∀ edit ∈ edits, ∀ replacement ∈ edit, ∃ text,
    contents.get? replacement.range.file = some text ∧
      replacement.InsertsInto replacement.range.file text

theorem InsertIntoFiles.of_mem_flatten (h : InsertIntoFiles contents edits)
    {replacement : Replacement} (hmem : replacement ∈ edits.flatten) :
    ∃ text, contents.get? replacement.range.file = some text ∧
      replacement.InsertsInto replacement.range.file text := by
  obtain ⟨edit, hedit, hmem⟩ := List.mem_flatten.1 hmem
  exact h edit hedit replacement hmem

/-- The edits that are accepted only insert if all edits do. -/
theorem InsertIntoFiles.accepted (h : InsertIntoFiles contents edits) :
    InsertIntoFiles contents (EditSelection.ofEdits edits).accepted :=
  fun edit hmem => h edit ((EditSelection.accepted_sublist edits).subset hmem)

/-- The result of the given insertions. Those that are applied go to different places of files of a
table, and the new texts are the texts of the table with the inserted texts at their places. -/
structure EditResult.InsertsInto (contents : FileTable) (edits : List Edit)
    (result : EditResult) : Prop where
  /-- An edit is left out only if it clashes with itself or with one that is applied before. -/
  judged : ∃ verdicts, EditSelection.Judges edits verdicts ∧
    result.applied = EditSelection.withVerdict true edits verdicts ∧
    result.incompatible = EditSelection.withVerdict false edits verdicts
  inserts : InsertIntoFiles contents result.applied
  apart : result.applied.flatten.Pairwise (fun a b =>
    a.range.file = b.range.file → a.range.offsets.start ≠ b.range.offsets.start)
  get?_files : ∀ file, result.files.get? file =
    if file ∈ result.applied.flatten.map (·.range.file) then
      (contents.get? file).map fun text => String.ofList
        (weave (insertedAt (result.applied.flatten.filter (·.range.file == file))) 0 text.toList)
    else none
  /-- Nothing of a text is taken away or moved past anything else. -/
  keeps : ∀ file text changed, contents.get? file = some text →
    result.files.get? file = some changed → text.toList.Sublist changed.toList

/-! ### Insertions at different places -/

/-- Insertions that do not overlap go to different places of their files. -/
theorem EditSelection.Apart.ne_of_insertIntoFiles (h : EditSelection.Apart edits.flatten)
    (hinserts : InsertIntoFiles contents edits) :
    edits.flatten.Pairwise (fun a b =>
      a.range.file = b.range.file → a.range.offsets.start ≠ b.range.offsets.start) := by
  have hempty : ∀ replacement ∈ edits.flatten, replacement.range.isEmpty = true := by
    intro replacement hmem
    obtain ⟨text, -, hinto⟩ := hinserts.of_mem_flatten hmem
    exact hinto.isEmpty
  refine List.Pairwise.imp_of_mem ?_ h
  intro a b ha hb hoverlaps hfile
  exact SourceRange.ne_of_overlaps_eq_false hoverlaps (hempty a ha) (hempty b hb) hfile

/-- Where different insertions go to different places each place gets the text of one of them. -/
theorem insertedAt_of_mem {replacement : Replacement}
    (hne : replacements.Pairwise (fun a b => a.range.offsets.start ≠ b.range.offsets.start))
    (hmem : replacement ∈ replacements) :
    insertedAt replacements replacement.range.offsets.start = replacement.text.toList := by
  obtain ⟨before, after, rfl⟩ := List.append_of_mem hmem
  obtain ⟨-, hafter, hbefore⟩ := List.pairwise_append.1 hne
  have hnone : before.filter
      (·.range.offsets.start == replacement.range.offsets.start) = [] := by
    refine List.filter_eq_nil_iff.2 fun other hother => ?_
    simpa using hbefore other hother replacement List.mem_cons_self
  have hnone' : after.filter
      (·.range.offsets.start == replacement.range.offsets.start) = [] := by
    refine List.filter_eq_nil_iff.2 fun other hother => ?_
    simpa using (List.rel_of_pairwise_cons hafter hother).symm
  rw [insertedAt, List.filter_append, hnone, List.filter_cons_of_pos (by simp), hnone']
  simp

/-- Where different insertions go to different places their order does not matter. -/
theorem insertedAt_perm {first second : List Replacement} (h : first.Perm second)
    (hne : first.Pairwise (fun a b => a.range.offsets.start ≠ b.range.offsets.start)) :
    insertedAt first = insertedAt second := by
  funext place
  have hperm := h.filter (·.range.offsets.start == place)
  have hne' := hne.filter (·.range.offsets.start == place)
  have hplace : ∀ replacement ∈ first.filter (·.range.offsets.start == place),
      replacement.range.offsets.start = place := fun replacement hmem => by
    simpa using (List.mem_filter.1 hmem).2
  rw [insertedAt, insertedAt]
  congr 1
  -- at most one of them goes to the place
  generalize first.filter (·.range.offsets.start == place) = found at hperm hne' hplace ⊢
  rcases found with - | ⟨a, - | ⟨b, rest⟩⟩
  · exact hperm.nil_eq
  · exact List.singleton_perm.1 hperm
  · have hab := List.rel_of_pairwise_cons hne' (List.mem_cons_self (a := b) (l := rest))
    rw [hplace a (by simp), hplace b (by simp)] at hab
    contradiction

namespace EditSelection

variable {selection : EditSelection}

/-- The new text of a file of a table when the insertions are made. -/
def textOf (selection : EditSelection) (contents : FileTable) (file : String) : String :=
  String.ofList (weave (insertedAt (selection.replacements.filter (·.range.file == file))) 0
    ((contents.get? file).getD "").toList)

/-- The result of making the insertions in the files of a table. -/
def insertInto (selection : EditSelection) (contents : FileTable) : EditResult where
  applied := selection.accepted
  incompatible := selection.refused
  files := .ofList (selection.files.map fun file => (file, selection.textOf contents file))

theorem pairwise_filter_file (hne : replacements.Pairwise (fun a b =>
      a.range.file = b.range.file → a.range.offsets.start ≠ b.range.offsets.start))
    (file : String) :
    (replacements.filter (·.range.file == file)).Pairwise
      (fun a b => a.range.offsets.start ≠ b.range.offsets.start) := by
  refine List.Pairwise.imp_of_mem ?_ (hne.filter _)
  intro a b ha hb hab
  have hafile : a.range.file = file := by simpa using (List.mem_filter.1 ha).2
  have hbfile : b.range.file = file := by simpa using (List.mem_filter.1 hb).2
  exact hab (hafile.trans hbfile.symm)

/-- The insertions in a file are made one after the other at places further and further to the
front. -/
theorem pairwise_replacementsOf (selection : EditSelection) (file : String)
    (hne : selection.replacements.Pairwise (fun a b =>
      a.range.file = b.range.file → a.range.offsets.start ≠ b.range.offsets.start)) :
    (selection.replacementsOf file).Pairwise
      (fun a b => b.range.offsets.start < a.range.offsets.start) := by
  have hne' : (selection.replacementsOf file).Pairwise
      (fun a b => a.range.offsets.start ≠ b.range.offsets.start) := by
    refine ((selection.replacementsOf_perm file).pairwise_iff fun h => h.symm).2 ?_
    exact pairwise_filter_file hne file
  refine ((selection.pairwise_start_replacementsOf file).and hne').imp fun hab => ?_
  exact lt_of_le_of_ne hab.1 hab.2.symm

/-- The new text of a file of the table. -/
theorem editFile_eq (hinserts : InsertIntoFiles contents selection.accepted)
    (hapart : Apart selection.replacements) {loader : Loader} (hserves : loader.Serves contents)
    {file : String} (hfile : file ∈ selection.files) :
    selection.editFile loader file = .done (selection.textOf contents file) := by
  have hne := hapart.ne_of_insertIntoFiles hinserts
  obtain ⟨first, hfirst, rfl⟩ := List.mem_map.1 (List.mem_eraseDups.1 hfile)
  obtain ⟨text, htext, -⟩ := hinserts.of_mem_flatten hfirst
  have hload := hserves _ _ htext
  have hperm := selection.replacementsOf_perm first.range.file
  -- the replacements of the file were checked against the text that the loader answers
  have hinsertsOf : ∀ replacement ∈ selection.replacementsOf first.range.file,
      replacement.InsertsInto first.range.file text := by
    intro replacement hmem
    obtain ⟨hmem, hsame⟩ := List.mem_filter.1 (hperm.subset hmem)
    obtain ⟨text', htext', hinto⟩ := hinserts.of_mem_flatten hmem
    rw [beq_iff_eq.1 hsame, htext] at htext'
    obtain rfl := Option.some.inj htext'
    exact beq_iff_eq.1 hsame ▸ hinto
  have happly : applyReplacements text.toList (selection.replacementsOf first.range.file)
      (weave (fun _ => []) 0 text.toList) = .done _ :=
    applyReplacements_weave _ hinsertsOf (pairwise_replacementsOf selection _ hne)
      fun _ _ _ _ => rfl
  simp only [weave_eq_self, List.append_nil] at happly
  -- the order in which they are made is not the order in which they were accepted
  rw [editFile, hload, Outcome.bind, happly, Outcome.bind, textOf, htext, Option.getD_some,
    ← insertedAt_perm hperm ((hperm.pairwise_iff fun h => h.symm).2 (pairwise_filter_file hne _))]

/-- The new texts of some files are those of each of them. -/
theorem editFiles_eq {loader : Loader} {textOf : String → String} {files : List String}
    (h : ∀ file ∈ files, selection.editFile loader file = .done (textOf file))
    (table : FileTable) :
    selection.editFiles loader files table =
      .done (files.foldl (fun table file => table.insert file (textOf file)) table) := by
  induction files generalizing table with
  | nil => rfl
  | cons file files ih =>
    rw [editFiles, h file List.mem_cons_self, Outcome.bind,
      ih fun later hmem => h later (List.mem_cons_of_mem _ hmem), List.foldl_cons]

/-- The new text of a file into which something is inserted. -/
theorem get?_files_insertInto (hinserts : InsertIntoFiles contents selection.accepted)
    (file : String) :
    (selection.insertInto contents).files.get? file =
      if file ∈ selection.replacements.map (·.range.file) then
        (contents.get? file).map fun text => String.ofList
          (weave (insertedAt (selection.replacements.filter (·.range.file == file))) 0 text.toList)
      else none := by
  have hget : (selection.insertInto contents).files.get? file = _ :=
    FileTable.get?_ofList (selection.textOf contents) file (by simp)
  have hfiles : file ∈ (selection.files.map fun file =>
      (file, selection.textOf contents file)).map Prod.fst ↔
        file ∈ selection.replacements.map (·.range.file) := by
    simp only [List.map_map, Function.comp_def, List.map_id']
    exact List.mem_eraseDups
  rw [hget]
  by_cases hmem : file ∈ selection.replacements.map (·.range.file)
  · rw [if_pos (hfiles.2 hmem), if_pos hmem]
    obtain ⟨replacement, hreplacement, rfl⟩ := List.mem_map.1 hmem
    obtain ⟨text, htext, -⟩ := hinserts.of_mem_flatten hreplacement
    rw [textOf, htext]
    rfl
  · rw [if_neg (mt hfiles.1 hmem), if_neg hmem]

/-- What was inserted where. -/
theorem insertsInto_insertInto (hinserts : InsertIntoFiles contents edits) :
    ((ofEdits edits).insertInto contents).InsertsInto contents edits := by
  refine ⟨?_, hinserts.accepted, (apart_ofEdits edits).ne_of_insertIntoFiles hinserts.accepted,
    get?_files_insertInto hinserts.accepted, fun file text changed htext hchanged => ?_⟩
  · -- what is applied and what is left out are the two halves of the selection
    obtain ⟨verdicts, hjudges, hselection⟩ := ofEdits_eq edits
    rw [insertInto, hselection]
    exact ⟨verdicts, hjudges, rfl, rfl⟩
  · rw [get?_files_insertInto hinserts.accepted, htext] at hchanged
    split at hchanged
    · obtain rfl := Option.some.inj hchanged
      rw [String.toList_ofList]
      exact sublist_weave _ _ _
    · contradiction

/-- The new texts depend on the replacements of the accepted edits and on the texts of the files. -/
theorem files_insertInto_congr {selection' : EditSelection} {contents' : FileTable}
    (h : selection.replacements = selection'.replacements)
    (hcontents : ∀ file, contents.get? file = contents'.get? file) :
    (selection.insertInto contents).files = (selection'.insertInto contents').files := by
  have htext : selection.textOf contents = selection'.textOf contents' := by
    funext file
    rw [textOf, textOf, h, hcontents]
  simp only [insertInto, htext, files, h]

end EditSelection

/-- Edits that only insert into the files of a table can be applied where these are served, with one
result for every order of the files. -/
theorem applyEditsIn_of_serves (hinserts : InsertIntoFiles contents edits)
    {order : EditSelection → List String}
    (horder : ∀ selection, (order selection).Perm selection.files) {loader : Loader}
    (hserves : loader.Serves contents) :
    applyEditsIn order edits loader =
      .done ((EditSelection.ofEdits edits).insertInto contents) := by
  have hfiles : ∀ file ∈ order (EditSelection.ofEdits edits),
      (EditSelection.ofEdits edits).editFile loader file =
        .done ((EditSelection.ofEdits edits).textOf contents file) := by
    intro file hmem
    exact EditSelection.editFile_eq hinserts.accepted (EditSelection.apart_ofEdits edits) hserves
      ((horder _).subset hmem)
  -- the table of new texts is the same for both orders of the files
  have htable := FileTable.ofList_map_perm (horder (EditSelection.ofEdits edits))
    ((EditSelection.ofEdits edits).textOf contents)
  rw [FileTable.ofList, List.foldl_map] at htable
  rw [applyEditsIn, EditSelection.editFiles_eq hfiles, htable]
  rfl

/-- Edits that only insert into the files of a table can be applied over the table, with one result
for every order of the files and every loader under the table. -/
theorem applyEditsIn_eq_insertInto (hinserts : InsertIntoFiles contents edits)
    {order : EditSelection → List String}
    (horder : ∀ selection, (order selection).Perm selection.files) (fallback : Loader) :
    applyEditsIn order edits (.overlay contents fallback) =
      .done ((EditSelection.ofEdits edits).insertInto contents) :=
  applyEditsIn_of_serves hinserts horder (Loader.serves_overlay contents fallback)

/-- Insertions at different places of one file are all made where the file is served. -/
theorem applyEditsIn_of_one_file {file contents : String}
    (hinto : ∀ replacement ∈ edits.flatten, replacement.InsertsInto file contents)
    (hne : edits.flatten.Pairwise (fun a b => a.range.offsets.start ≠ b.range.offsets.start))
    {order : EditSelection → List String}
    (horder : ∀ selection, (order selection).Perm selection.files) {loader : Loader}
    (hload : loader.load file = .done contents) :
    ∃ files, applyEditsIn order edits loader = .done ⟨edits, [], files⟩ ∧
      ∀ other, files.get? other =
        if other = file ∧ edits.flatten ≠ [] then
          some (String.ofList (weave (insertedAt edits.flatten) 0 contents.toList))
        else none := by
  have hapart : EditSelection.Apart edits.flatten := by
    refine List.Pairwise.imp_of_mem (fun ha hb hne => ?_) hne
    exact SourceRange.overlaps_eq_false_of_ne (hinto _ ha).isEmpty (hinto _ hb).isEmpty hne
  -- the table of the one file
  have hget := FileTable.get?_ofList_singleton file contents
  have hserves : loader.Serves (.ofList [(file, contents)]) := by
    intro name text htext
    rw [hget] at htext
    split at htext
    · next hname =>
      obtain rfl := Option.some.inj htext
      rw [hname, hload]
    · contradiction
  have hfile : ∀ replacement ∈ edits.flatten, replacement.range.file = file :=
    fun replacement hmem => (hinto replacement hmem).range_liesIn.file_eq
  have hinserts : InsertIntoFiles (.ofList [(file, contents)]) edits := by
    intro edit hedit replacement hmem
    have hmem : replacement ∈ edits.flatten := List.mem_flatten.2 ⟨edit, hedit, hmem⟩
    refine ⟨contents, by rw [hget, if_pos (hfile replacement hmem)], ?_⟩
    exact (hfile replacement hmem).symm ▸ hinto replacement hmem
  have happly := applyEditsIn_of_serves hinserts horder hserves
  rw [EditSelection.ofEdits_of_apart hapart] at happly
  refine ⟨_, happly, fun other => (EditSelection.get?_files_insertInto hinserts other).trans ?_⟩
  change (if other ∈ edits.flatten.map (·.range.file) then _ else none) = _
  by_cases hother : other = file
  · subst hother
    have hfilter : edits.flatten.filter (·.range.file == other) = edits.flatten :=
      List.filter_eq_self.2 fun replacement hmem => beq_iff_eq.2 (hfile replacement hmem)
    have hmem : other ∈ edits.flatten.map (·.range.file) ↔ edits.flatten ≠ [] := by
      refine ⟨fun hmem hnil => by simp [hnil] at hmem, fun hnil => ?_⟩
      obtain ⟨replacement, hmem⟩ := List.exists_mem_of_ne_nil _ hnil
      exact List.mem_map.2 ⟨replacement, hmem, hfile replacement hmem⟩
    rw [hget, if_pos rfl, Option.map_some]
    simp only [EditSelection.replacements, hfilter, hmem, true_and]
  · rw [if_neg, if_neg fun h => hother h.1]
    intro hnamed
    obtain ⟨replacement, hmem, heq⟩ := List.mem_map.1 hnamed
    exact hother (heq.symm.trans (hfile replacement hmem))

end ElementLint
