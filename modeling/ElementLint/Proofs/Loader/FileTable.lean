import ElementLint.Loader.FileTable
import Mathlib.Data.String.Basic

/-!
# Looking up files

An entry of a table is found under its name and hides no other one (`FileTable.get?_insert`), so
that the last text of a name counts (`FileTable.get?_ofList_eq_lookup`). A table of files whose
texts depend on their names alone does not depend on the order in which they enter it
(`FileTable.ofList_map_perm`). The names of a table are those that it has a text for
(`FileTable.mem_names_iff`), in increasing order (`FileTable.pairwise_names_ofList`).
-/

namespace ElementLint.FileTable

variable {name other text otherText : String} {entries rest : List (String × String)}

/-! ### Places in a table -/

theorem place_cons_of_lt (h : name < other) :
    place name text ((other, otherText) :: rest) = (name, text) :: (other, otherText) :: rest := by
  rw [place, if_pos h]

theorem place_cons_self :
    place name text ((name, otherText) :: rest) = (name, text) :: rest := by
  rw [place, if_neg (lt_irrefl name), if_pos rfl]

theorem place_cons_of_gt (h : other < name) :
    place name text ((other, otherText) :: rest) =
      (other, otherText) :: place name text rest := by
  rw [place, if_neg h.asymm, if_neg h.ne']

/-- Entries of different names keep out of each other's way. -/
theorem place_comm_of_lt (h : name < other) (entries : List (String × String)) :
    place name text (place other otherText entries) =
      place other otherText (place name text entries) := by
  induction entries with
  | nil => rw [place, place_cons_of_lt h, place, place_cons_of_gt h, place]
  | cons entry rest ih =>
    obtain ⟨key, value⟩ := entry
    -- the larger name first: before its place the smaller one goes where it likes
    rcases lt_trichotomy other key with hlt | rfl | hgt
    · rw [place_cons_of_lt hlt, place_cons_of_lt h, place_cons_of_lt (h.trans hlt),
        place_cons_of_gt h, place_cons_of_lt hlt]
    · rw [place_cons_self, place_cons_of_lt h, place_cons_of_lt h, place_cons_of_gt h,
        place_cons_self]
    · rw [place_cons_of_gt hgt]
      rcases lt_trichotomy name key with hlt | rfl | hgt'
      · rw [place_cons_of_lt hlt, place_cons_of_lt hlt, place_cons_of_gt h, place_cons_of_gt hgt]
      · rw [place_cons_self, place_cons_self, place_cons_of_gt h]
      · rw [place_cons_of_gt hgt', place_cons_of_gt hgt', place_cons_of_gt hgt, ih]

theorem insert_comm (table : FileTable) (hne : name ≠ other) :
    (table.insert name text).insert other otherText =
      (table.insert other otherText).insert name text := by
  simp only [insert, FileTable.mk.injEq]
  rcases lt_or_gt_of_ne hne with hlt | hgt
  · exact (place_comm_of_lt hlt table.entries).symm
  · exact place_comm_of_lt hgt table.entries

/-- Files may enter a table in any order if their texts depend on their names alone. -/
theorem ofList_map_perm {names names' : List String} (h : names.Perm names')
    (textOf : String → String) :
    ofList (names.map fun name => (name, textOf name)) =
      ofList (names'.map fun name => (name, textOf name)) := by
  rw [ofList, ofList, List.foldl_map, List.foldl_map]
  refine h.foldl_eq' (fun first _ second _ table => ?_) _
  by_cases heq : first = second
  · rw [heq]
  · exact insert_comm table heq

/-! ### Looking up -/

theorem lookup_cons_eq_ite (name : String) (entry : String × String)
    (rest : List (String × String)) :
    (entry :: rest).lookup name = if name = entry.1 then some entry.2 else rest.lookup name := by
  rw [List.lookup_cons]
  by_cases h : name = entry.1
  · rw [if_pos h, beq_iff_eq.2 h]
  · rw [if_neg h, beq_eq_false_iff_ne.2 h]

/-- An entry is found under its name; under other names the table answers what it did before. -/
theorem get?_insert (table : FileTable) (name text other : String) :
    (table.insert name text).get? other = if other = name then some text else table.get? other := by
  rw [get?, get?, insert]
  dsimp only
  induction table.entries with
  | nil => rw [place, lookup_cons_eq_ite]
  | cons entry rest ih =>
    obtain ⟨key, value⟩ := entry
    rcases lt_trichotomy name key with hlt | rfl | hgt
    · rw [place_cons_of_lt hlt, lookup_cons_eq_ite]
    · rw [place_cons_self, lookup_cons_eq_ite, lookup_cons_eq_ite]
      split <;> rfl
    · rw [place_cons_of_gt hgt, lookup_cons_eq_ite, lookup_cons_eq_ite, ih]
      by_cases h : other = key
      · rw [if_pos h, if_pos h, if_neg (h ▸ hgt.ne)]
      · rw [if_neg h, if_neg h]

/-- The table of one file. -/
theorem get?_ofList_singleton (name text other : String) :
    (ofList [(name, text)]).get? other = if other = name then some text else none :=
  get?_insert empty name text other

theorem get?_foldl_insert (textOf : String → String) (table : FileTable) (name : String)
    (h : ∀ entry ∈ entries, entry.2 = textOf entry.1) :
    (entries.foldl (fun table entry => table.insert entry.1 entry.2) table).get? name =
      if name ∈ entries.map Prod.fst then some (textOf name) else table.get? name := by
  induction entries generalizing table with
  | nil => simp
  | cons entry entries ih =>
    have hlater : ∀ later ∈ entries, later.2 = textOf later.1 := fun later hmem =>
      h later (List.mem_cons_of_mem _ hmem)
    rw [List.foldl_cons, ih _ hlater, get?_insert, h entry List.mem_cons_self]
    by_cases hname : name = entry.1
    · simp [hname]
    · simp only [List.map_cons, List.mem_cons, hname, false_or, if_false]

/-- A table of files whose texts depend on their names alone has these texts. -/
theorem get?_ofList (textOf : String → String) (name : String)
    (h : ∀ entry ∈ entries, entry.2 = textOf entry.1) :
    (ofList entries).get? name =
      if name ∈ entries.map Prod.fst then some (textOf name) else none :=
  get?_foldl_insert textOf empty name h

theorem get?_foldl_insert_eq_lookup (table : FileTable) (entries : List (String × String))
    (name : String) :
    (entries.foldl (fun table entry => table.insert entry.1 entry.2) table).get? name =
      (entries.reverse.lookup name).or (table.get? name) := by
  induction entries generalizing table with
  | nil => rfl
  | cons entry entries ih =>
    rw [List.foldl_cons, ih, get?_insert, List.reverse_cons, List.lookup_append, Option.or_assoc,
      lookup_cons_eq_ite]
    split <;> rfl

/-- Of the texts that a name is given the last one counts. -/
theorem get?_ofList_eq_lookup (entries : List (String × String)) (name : String) :
    (ofList entries).get? name = entries.reverse.lookup name :=
  (get?_foldl_insert_eq_lookup empty entries name).trans (Option.or_none)

/-! ### Names -/

/-- The names of a table are those that it has a text for. -/
theorem mem_names_iff (table : FileTable) (name : String) :
    name ∈ table.names ↔ ∃ text, table.get? name = some text := by
  rw [← Option.isSome_iff_exists, get?, List.lookup_isSome_iff, names, List.mem_map]
  simp only [beq_iff_eq]
  exact exists_congr fun entry => and_congr_right fun _ => eq_comm

theorem mem_names_insert (table : FileTable) (name text other : String) :
    other ∈ (table.insert name text).names ↔ other = name ∨ other ∈ table.names := by
  rw [mem_names_iff, mem_names_iff, get?_insert]
  by_cases h : other = name <;> simp [h]

/-- An entry comes to stand where the names stay in order. -/
theorem pairwise_names_insert (table : FileTable) (h : table.names.Pairwise (· < ·))
    (name text : String) : (table.insert name text).names.Pairwise (· < ·) := by
  obtain ⟨entries⟩ := table
  induction entries with
  | nil => exact List.pairwise_singleton _ _
  | cons entry rest ih =>
    obtain ⟨key, value⟩ := entry
    obtain ⟨hkey, hrest⟩ := List.pairwise_cons.1 h
    rcases lt_trichotomy name key with hlt | rfl | hgt
    · -- before all others
      rw [insert, place_cons_of_lt hlt]
      refine List.pairwise_cons.2 ⟨fun other hother => ?_, h⟩
      rcases List.mem_cons.1 hother with rfl | hother
      · exact hlt
      · exact hlt.trans (hkey other hother)
    · rw [insert, place_cons_self]
      exact h
    · rw [insert, place_cons_of_gt hgt]
      refine List.pairwise_cons.2 ⟨fun other hother => ?_, ih hrest⟩
      rcases (mem_names_insert ⟨rest⟩ name text other).1 hother with rfl | hother
      · exact hgt
      · exact hkey other hother

/-- The names of a table stand in increasing order, however its entries came into it. -/
theorem pairwise_names_ofList (entries : List (String × String)) :
    (ofList entries).names.Pairwise (· < ·) := by
  have hkeeps (table : FileTable) (h : table.names.Pairwise (· < ·)) :
      (entries.foldl (fun table entry => table.insert entry.1 entry.2) table).names.Pairwise
        (· < ·) := by
    induction entries generalizing table with
    | nil => exact h
    | cons entry entries ih => exact ih _ (table.pairwise_names_insert h entry.1 entry.2)
  exact hkeeps empty .nil

end ElementLint.FileTable
