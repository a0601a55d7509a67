import ElementLint.Loader.Basic
import ElementLint.Proofs.Loader.FileTable
import Mathlib.Data.List.Destutter
import Mathlib.Data.List.Sort

/-!
# Tables laid over loaders

`Loader.Lists` says of some names that they are what a loader lists: they stand in increasing order,
the loader can load them, and every name that it can load and that ends like those of files with
markup is among them. It holds of a table of files (`Loader.lists_ofTable`) and is kept when a table
is laid over a loader (`Loader.Lists.overlay`), so it holds of every tower of tables
(`Loader.load_list_tower`).
-/

namespace ElementLint.Loader

variable {name url : String} {names : List String} {loader fallback : Loader}

/-! ### Names in order -/

theorem eraseReps_eq_destutter (names : List String) :
    names.eraseReps = names.destutter (· ≠ ·) := by
  have hloop (first : String) (rest found : List String) :
      List.eraseRepsBy.loop (· == ·) first rest found =
        found.reverse ++ rest.destutter' (· ≠ ·) first := by
    induction rest generalizing first found with
    | nil => rw [List.eraseRepsBy.loop, List.reverse_cons, List.destutter'_nil]
    | cons next rest ih =>
      rw [List.eraseRepsBy.loop, List.destutter'_cons]
      by_cases h : first = next
      · simp [h, ih]
      · simp [h, ih, beq_eq_false_iff_ne.2 h]
  cases names with
  | nil => rfl
  | cons first rest => exact hloop first rest []

theorem pairwise_mergeSort_le (names : List String) :
    (names.mergeSort (fun a b => decide (a ≤ b))).Pairwise (· ≤ ·) :=
  List.pairwise_mergeSort' (r := (· ≤ ·)) names

theorem sortedNames_eq_dedup (names : List String) :
    sortedNames names = (names.mergeSort (fun a b => decide (a ≤ b))).dedup := by
  rw [sortedNames, eraseReps_eq_destutter, (pairwise_mergeSort_le names).destutter_eq_dedup]

theorem mem_sortedNames : name ∈ sortedNames names ↔ name ∈ names := by
  rw [sortedNames_eq_dedup, List.mem_dedup, List.mem_mergeSort]

theorem pairwise_sortedNames (names : List String) : (sortedNames names).Pairwise (· < ·) := by
  rw [sortedNames_eq_dedup]
  have hordered := (pairwise_mergeSort_le names).sublist (List.dedup_sublist _)
  exact (hordered.and (List.nodup_dedup _)).imp fun h => lt_of_le_of_ne h.1 h.2

/-- Names in increasing order stay as they are if, and only if, no other name joins them. -/
theorem sortedNames_append_eq_iff (h : names.Pairwise (· < ·)) {others : List String} :
    sortedNames (names ++ others) = names ↔ ∀ name ∈ others, name ∈ names := by
  constructor
  · intro heq name hmem
    rw [← heq, mem_sortedNames]
    exact List.mem_append_right names hmem
  · intro hothers
    refine (pairwise_sortedNames _).eq_of_mem_iff h fun name => ?_
    rw [mem_sortedNames, List.mem_append]
    exact or_iff_left_of_imp (hothers name)

/-- A name is that of a file with markup if `.html` stands at its end. -/
theorem isMarkupName_iff : isMarkupName url = true ↔ ∃ stem, url = stem ++ ".html" := by
  rw [isMarkupName, List.isSuffixOf_iff_suffix]
  constructor
  · rintro ⟨stem, hstem⟩
    refine ⟨String.ofList stem, ?_⟩
    rw [← String.toList_inj, String.toList_append, String.toList_ofList, hstem]
  · rintro ⟨stem, rfl⟩
    exact ⟨stem.toList, (String.toList_append ..).symm⟩

/-! ### What loaders list -/

/-- Some names are what a loader lists: each of them once, in their order, and with a text; and no
name of a file with markup is left out that has a text. -/
structure Lists (loader : Loader) (names : List String) : Prop where
  list_eq : loader.list = .ok names
  increasing : names.Pairwise (· < ·)
  loads : ∀ url ∈ names, ∃ text, loader.load url = .done text
  complete : ∀ url text, loader.load url = .done text → isMarkupName url = true → url ∈ names

theorem load_ofTable (files : FileTable) (url : String) :
    (ofTable files).load url =
      match files.get? url with
      | some text => .done text
      | none => .failed (.notLoaded url .unknownName) := rfl

theorem load_overlay (files : FileTable) (fallback : Loader) (url : String) :
    (overlay files fallback).load url =
      match files.get? url with
      | some text => .done text
      | none => fallback.load url := rfl

theorem load_ofTable_eq_done {files : FileTable} {text : String} :
    (ofTable files).load url = .done text ↔ files.get? url = some text := by
  rw [load_ofTable]
  split
  · next found hfound => rw [hfound, Outcome.done.injEq, Option.some.injEq]
  · next hnone => simp [hnone]

theorem load_ofTable_ne_aborted (files : FileTable) (url : String) (message : Option String) :
    (ofTable files).load url ≠ .aborted message := by
  rw [load_ofTable]
  split <;> simp

/-- A table of files lists those of its names that end like those of files with markup. -/
theorem lists_ofTable {files : FileTable} (h : files.names.Pairwise (· < ·)) :
    (ofTable files).Lists (files.names.filter isMarkupName) where
  list_eq := rfl
  increasing := h.filter _
  loads url hmem := by
    obtain ⟨text, htext⟩ := (files.mem_names_iff url).1 (List.mem_of_mem_filter hmem)
    exact ⟨text, load_ofTable_eq_done.2 htext⟩
  complete url text hload hmarkup := by
    refine List.mem_filter.2 ⟨(files.mem_names_iff url).2 ⟨text, ?_⟩, hmarkup⟩
    exact load_ofTable_eq_done.1 hload

/-- A table over a loader adds its names to those of the loader. -/
theorem Lists.overlay (h : fallback.Lists names) (files : FileTable) :
    (overlay files fallback).Lists (sortedNames (names ++ files.names)) where
  list_eq := by rw [Loader.overlay, h.list_eq]; rfl
  increasing := pairwise_sortedNames _
  loads url hmem := by
    rw [load_overlay]
    cases htext : files.get? url with
    | some text => exact ⟨text, rfl⟩
    | none =>
      -- a name of the table would have a text there
      rcases List.mem_append.1 (mem_sortedNames.1 hmem) with hmem | hmem
      · exact h.loads url hmem
      · obtain ⟨text, hfound⟩ := (files.mem_names_iff url).1 hmem
        rw [htext] at hfound
        contradiction
  complete url text hload hmarkup := by
    rw [mem_sortedNames, List.mem_append]
    rw [load_overlay] at hload
    cases htext : files.get? url with
    | some found => exact .inr ((files.mem_names_iff url).2 ⟨found, htext⟩)
    | none =>
      rw [htext] at hload
      exact .inl (h.complete url text hload hmarkup)

/-! ### Towers -/

/-- The tables of a list laid over a loader, the first one outermost. -/
def tower (base : Loader) (overlays : List FileTable) : Loader :=
  overlays.foldr overlay base

/-- The outermost table that has a name answers for it. -/
theorem load_tower (base : Loader) (overlays : List FileTable) (url : String) :
    (tower base overlays).load url =
      match overlays.findSome? (·.get? url) with
      | some text => .done text
      | none => base.load url := by
  induction overlays with
  | nil => rfl
  | cons files overlays ih =>
    rw [tower, List.foldr_cons, load_overlay, List.findSome?_cons]
    cases files.get? url with
    | some text => rfl
    | none => exact ih

theorem exists_lists_tower (h : loader.Lists names) (overlays : List FileTable) :
    ∃ names, (tower loader overlays).Lists names := by
  induction overlays with
  | nil => exact ⟨names, h⟩
  | cons files overlays ih =>
    obtain ⟨inner, hinner⟩ := ih
    exact ⟨_, hinner.overlay files⟩

/-- A tower of tables over files that came into memory one after the other. It answers with the text
of the outermost table that has a name, else with the last text that the name was given, and else
with an error that has the name. It lists names in increasing order, each of which it can load, and
leaves out no name that it can load and that ends in `.html`. The tables of the tower may keep their
entries in any order. -/
theorem load_list_tower (insertions : List (String × String)) (overlays : List FileTable) :
    (∀ url, (tower (.ofTable (.ofList insertions)) overlays).load url =
      match (overlays.findSome? (·.get? url)).or (insertions.reverse.lookup url) with
      | some text => .done text
      | none => .failed (.notLoaded url .unknownName)) ∧
    ∃ names, (tower (.ofTable (.ofList insertions)) overlays).list = .ok names ∧
      names.Pairwise (· < ·) ∧
      (∀ url ∈ names, ∃ text,
        (tower (.ofTable (.ofList insertions)) overlays).load url = .done text) ∧
      ∀ stem text,
        (tower (.ofTable (.ofList insertions)) overlays).load (stem ++ ".html") = .done text →
          stem ++ ".html" ∈ names := by
  constructor
  · intro url
    rw [load_tower, load_ofTable, FileTable.get?_ofList_eq_lookup]
    cases overlays.findSome? (·.get? url) <;> rfl
  · have hbase := lists_ofTable (FileTable.pairwise_names_ofList insertions)
    obtain ⟨names, hnames⟩ := exists_lists_tower hbase overlays
    refine ⟨names, hnames.list_eq, hnames.increasing, hnames.loads, fun stem text hload => ?_⟩
    exact hnames.complete _ text hload (isMarkupName_iff.2 ⟨stem, rfl⟩)

end ElementLint.Loader
