import ElementLint.Loader.Path
import ElementLint.Proofs.Text.Pieces
import Mathlib.Data.List.Basic

/-!
# The pieces of a path

A path leads out of a folder (`Path.LeadsOut`) if it starts with a slash or if one of its pieces is
`..`; its components tell this (`Path.all_staysInside_iff`). `Path.plain` leaves out the idle pieces
of a path, and `Path.pieces_plain` says what stays.
-/

namespace ElementLint.Path

variable {path below piece : String} {parts : List String}

/-! ### Pieces -/

theorem pieces_ne_nil (path : String) : pieces path ≠ [] := by
  rw [pieces, ne_eq, List.map_eq_nil_iff]
  exact Text.pieces_ne_nil _ _

theorem pieces_append_slash (path below : String) :
    pieces (path ++ "/" ++ below) = pieces path ++ pieces below := by
  have hchars : (path ++ "/" ++ below).toList = path.toList ++ '/' :: below.toList := by simp
  rw [pieces, hchars, Text.pieces_append_separator _ rfl, List.map_append, pieces, pieces]

theorem slash_not_mem_of_mem_pieces (h : piece ∈ pieces path) : '/' ∉ piece.toList := by
  obtain ⟨chars, hchars, rfl⟩ := List.mem_map.1 h
  rw [String.toList_ofList]
  exact (Text.cutsAt_pieces '/' path.toList).separator_not_mem chars hchars

theorem pieces_eq_singleton (h : '/' ∉ path.toList) : pieces path = [path] := by
  have hchars : ∀ c ∈ path.toList, (c == '/') = false := by
    intro c hc
    exact beq_eq_false_iff_ne.2 fun heq => h (heq ▸ hc)
  rw [pieces, Text.pieces_eq_singleton hchars, List.map_singleton, String.ofList_toList]

/-- Texts without slashes are the pieces of the path that is made up of them. -/
theorem pieces_intercalate (hne : parts ≠ []) (hparts : ∀ part ∈ parts, '/' ∉ part.toList) :
    pieces ("/".intercalate parts) = parts := by
  induction parts with
  | nil => contradiction
  | cons part rest ih =>
    obtain ⟨hpart, hrest⟩ := List.forall_mem_cons.1 hparts
    cases rest with
    | nil => rw [String.intercalate_singleton, pieces_eq_singleton hpart]
    | cons next rest =>
      rw [String.intercalate_cons_cons, pieces_append_slash, pieces_eq_singleton hpart,
        ih (List.cons_ne_nil _ _) hrest, List.singleton_append]

/-- A character other than a slash stands in one of the pieces. -/
theorem exists_mem_pieces_iff {c : Char} (hc : c ≠ '/') :
    (∃ piece ∈ pieces path, c ∈ piece.toList) ↔ c ∈ path.toList := by
  have hchars : (∃ piece ∈ Text.pieces (· == '/') path.toList, c ∈ piece) ↔ c ∈ path.toList :=
    Text.exists_mem_pieces_iff (beq_eq_false_iff_ne.2 hc)
  rw [← hchars]
  simp [pieces]

/-- In front of the slash that an absolute path starts with stands an empty piece. -/
theorem head?_pieces_of_isAbsolute (h : isAbsolute path = true) :
    (pieces path).head? = some "" := by
  obtain ⟨rest, hrest⟩ := List.head?_eq_some_iff.1 (beq_iff_eq.1 h)
  have hpieces : Text.pieces (· == '/') ('/' :: rest) = [] :: Text.pieces (· == '/') rest :=
    Text.pieces_append_cons (List.forall_mem_nil _) rfl rest
  rw [pieces, hrest, hpieces]
  rfl

/-! ### Paths that lead out of a folder -/

/-- A path starts with a slash, or has a piece that leads to the folder above. -/
def LeadsOut (path : String) : Prop :=
  path.toList.head? = some '/' ∨ ".." ∈ pieces path

instance (path : String) : Decidable (LeadsOut path) :=
  inferInstanceAs (Decidable (_ ∨ _))

theorem all_staysInside_start (path : String) :
    (start path).all (·.staysInside) = true ↔ path.toList.head? ≠ some '/' := by
  rw [start, isAbsolute]
  by_cases hroot : path.toList.head? = some '/'
  · simp [hroot, PathComponent.staysInside]
  · rw [if_neg (by simpa using hroot)]
    split <;> simp [hroot, PathComponent.staysInside]

theorem all_staysInside_filterMap (parts : List String) :
    (parts.filterMap component?).all (·.staysInside) = true ↔ ".." ∉ parts := by
  induction parts with
  | nil => simp
  | cons part rest ih =>
    rw [List.filterMap_cons, List.mem_cons, not_or, ← ih, component?]
    by_cases hidle : isIdle part = true
    · have hne : ".." ≠ part := fun heq => by simp [← heq, isIdle] at hidle
      simp [hidle, hne]
    · by_cases habove : part = ".."
      · subst habove
        simp [isIdle, PathComponent.staysInside]
      · simp [hidle, habove, Ne.symm habove, PathComponent.staysInside]

/-- The components of a path tell whether it leads out of a folder. -/
theorem all_staysInside_iff (path : String) :
    (components path).all (·.staysInside) = true ↔ ¬ LeadsOut path := by
  rw [components, List.all_append, Bool.and_eq_true, all_staysInside_start,
    all_staysInside_filterMap, LeadsOut, not_or]

theorem isAbsolute_eq_false (h : ¬ LeadsOut path) : isAbsolute path = false :=
  beq_eq_false_iff_ne.2 fun hroot => h (.inl hroot)

theorem above_not_mem (h : ¬ LeadsOut path) : ".." ∉ pieces path :=
  fun hmem => h (.inr hmem)

/-! ### Joining -/

theorem join_eq (hbelow : isAbsolute below = false) :
    join path below =
      if path.toList.getLast?.all (· == '/') then path ++ below else path ++ "/" ++ below := by
  rw [join, if_neg (by simp [hbelow])]

/-- The pieces of both paths stand in the joined one, but for an empty piece at the end of the
first. -/
theorem exists_pieces_join (path : String) (hbelow : isAbsolute below = false) :
    ∃ before, pieces (join path below) = before ++ pieces below ∧
      (pieces path = before ∨ pieces path = before ++ [""]) := by
  rw [join_eq hbelow]
  have hnone : pieces "" = [""] := pieces_eq_singleton (by simp)
  split
  · next hend =>
    rcases List.eq_nil_or_concat path.toList with hempty | ⟨front, last, hconcat⟩
    · obtain rfl := String.toList_eq_nil_iff.1 hempty
      exact ⟨[], by rw [String.empty_append, List.nil_append], .inr hnone⟩
    · -- the slash at the end of the path is the one between both
      obtain rfl : last = '/' := by simpa [hconcat] using hend
      obtain rfl : path = String.ofList front ++ "/" := by
        rw [← String.toList_inj]
        simpa using hconcat
      refine ⟨pieces (String.ofList front), pieces_append_slash _ _, .inr ?_⟩
      rw [← hnone, ← pieces_append_slash, String.append_empty]
  · exact ⟨pieces path, pieces_append_slash _ _, .inl rfl⟩

theorem isAbsolute_join (path : String) (hbelow : isAbsolute below = false) :
    isAbsolute (join path below) = isAbsolute path := by
  rw [join_eq hbelow]
  cases hchars : path.toList with
  | nil =>
    obtain rfl := String.toList_eq_nil_iff.1 hchars
    simpa [isAbsolute] using hbelow
  | cons c rest =>
    split <;> simp [isAbsolute, hchars]

theorem mem_join_iff {c : Char} (hc : c ≠ '/') (hbelow : isAbsolute below = false) :
    c ∈ (join path below).toList ↔ c ∈ path.toList ∨ c ∈ below.toList := by
  rw [join_eq hbelow]
  split <;> simp [hc]

theorem join_ne_empty (path : String) (h : below ≠ "") : join path below ≠ "" := by
  rw [join]
  split
  · exact h
  · split <;> simp [h]

/-! ### Idle pieces -/

/-- A path without its idle pieces. If nothing else is there, it leads to where it starts. -/
def plain (path : String) : String :=
  match (pieces path).filter (!isIdle ·) with
  | [] => "."
  | names => "/".intercalate names

/-- A path that ends with an idle piece asks for a folder. -/
def AsksForFolder (path : String) : Prop :=
  (pieces path).getLast? = some "" ∨ (pieces path).getLast? = some "."

instance (path : String) : Decidable (AsksForFolder path) :=
  inferInstanceAs (Decidable (_ ∨ _))

theorem asksForFolder_iff (path : String) :
    AsksForFolder path ↔ ∃ piece ∈ (pieces path).getLast?, isIdle piece = true := by
  rw [AsksForFolder]
  cases (pieces path).getLast? <;> simp [isIdle]

theorem not_isIdle_getLast? (h : ¬ AsksForFolder path) :
    ∀ piece ∈ (pieces path).getLast?, isIdle piece = false := by
  intro piece hlast
  by_contra hidle
  exact h ((asksForFolder_iff path).2 ⟨piece, hlast, by simpa using hidle⟩)

theorem pieces_plain (path : String) :
    pieces (plain path) =
      if (pieces path).filter (!isIdle ·) = [] then ["."]
      else (pieces path).filter (!isIdle ·) := by
  rw [plain]
  split
  · next hnone =>
    rw [if_pos hnone]
    rfl
  · next hsome =>
    rw [if_neg hsome]
    refine pieces_intercalate hsome fun part hpart => ?_
    exact slash_not_mem_of_mem_pieces (List.mem_of_mem_filter hpart)

/-- A path has the same pieces that are not idle with and without the others. -/
theorem filter_pieces_plain (path : String) :
    (pieces (plain path)).filter (!isIdle ·) = (pieces path).filter (!isIdle ·) := by
  rw [pieces_plain]
  split
  · next hnone =>
    rw [hnone]
    rfl
  · rw [List.filter_filter]
    simp

theorem plain_ne_empty (path : String) : plain path ≠ "" := by
  intro hempty
  have hpieces := pieces_plain path
  rw [hempty] at hpieces
  split at hpieces
  · simp [pieces, Text.pieces] at hpieces
  · have hmem : "" ∈ (pieces path).filter (!isIdle ·) := by
      rw [← hpieces]
      simp [pieces, Text.pieces]
    simp [isIdle] at hmem

theorem not_leadsOut_plain (h : ¬ LeadsOut path) : ¬ LeadsOut (plain path) := by
  have hpieces := pieces_plain path
  rintro (hroot | habove)
  · -- an absolute path starts with an idle piece
    have hhead : (pieces (plain path)).head? = some "" :=
      head?_pieces_of_isAbsolute (beq_iff_eq.2 hroot)
    rw [hpieces] at hhead
    split at hhead
    · simp at hhead
    · have hmem := List.mem_of_mem_head? hhead
      simp [isIdle] at hmem
  · rw [hpieces] at habove
    split at habove
    · simp at habove
    · exact above_not_mem h (List.mem_of_mem_filter habove)

/-- Idle pieces hold slashes and full stops only. -/
theorem mem_plain_iff {c : Char} (hslash : c ≠ '/') (hstop : c ≠ '.') :
    c ∈ (plain path).toList ↔ c ∈ path.toList := by
  have hidle : ∀ path, (∃ piece ∈ (pieces path).filter (!isIdle ·), c ∈ piece.toList) ↔
      c ∈ path.toList := by
    intro path
    rw [← exists_mem_pieces_iff hslash]
    constructor
    · rintro ⟨piece, hmem, hc⟩
      exact ⟨piece, List.mem_of_mem_filter hmem, hc⟩
    · rintro ⟨piece, hmem, hc⟩
      refine ⟨piece, List.mem_filter.2 ⟨hmem, ?_⟩, hc⟩
      by_contra hnot
      simp only [isIdle, Bool.not_eq_true', Bool.not_eq_false, Bool.or_eq_true, beq_iff_eq] at hnot
      rcases hnot with rfl | rfl <;> simp_all
  rw [← hidle, filter_pieces_plain, hidle]

end ElementLint.Path
