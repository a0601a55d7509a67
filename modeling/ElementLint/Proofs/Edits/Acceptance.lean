import ElementLint.Proofs.Edits.Selection
import ElementLint.Proofs.Error

/-!
# Verdicts on edits

Edits are accepted or refused one after the other. `EditSelection.Judges` says what the verdicts
have to be: an edit is refused if two of its own replacements overlap, or one of them overlaps a
replacement of an edit accepted before. There is exactly one such list of verdicts
(`EditSelection.Judges.unique`), and the accepted and the refused edits are the edits with the one
and the other verdict, in their order (`EditSelection.ofEdits_eq`). A refused edit has no effect:
the accepted edits alone have the same outcome (`EditSelection.applyEditsIn_accepted`).

`Extent.Touches` says in terms of the bytes of a text when two ranges of a file overlap
(`SourceRange.overlaps_iff_touches`).
-/

namespace ElementLint

/-- Two stretches share a byte, or one of them is empty and lies strictly inside the other, or both
are empty and at the same place. -/
def Extent.Touches (a b : Extent) : Prop :=
  (∃ byte, (a.start ≤ byte ∧ byte < a.stop) ∧ b.start ≤ byte ∧ byte < b.stop) ∨
    (a.start = a.stop ∧ b.start < a.start ∧ a.start < b.stop) ∨
    (b.start = b.stop ∧ a.start < b.start ∧ b.start < a.stop) ∨
    (a.start = a.stop ∧ b.start = b.stop ∧ a.start = b.start)

/-- Ranges overlap if they touch the same text of the same file. -/
theorem SourceRange.overlaps_iff_touches {a b : SourceRange}
    (ha : a.offsets.start ≤ a.offsets.stop) (hb : b.offsets.start ≤ b.offsets.stop) :
    a.overlaps b = true ↔ a.file = b.file ∧ a.offsets.Touches b.offsets := by
  by_cases hfile : a.file = b.file
  · rw [overlaps, if_neg (not_not_intro hfile), and_iff_right hfile, Extent.Touches]
    by_cases hempty : a.isEmpty && b.isEmpty
    · rw [if_pos hempty, beq_iff_eq]
      simp only [isEmpty, Bool.and_eq_true, decide_eq_true_eq] at hempty
      constructor
      · intro heq
        omega
      · rintro (⟨byte, hbyte⟩ | h) <;> omega
    · rw [if_neg hempty, Bool.and_eq_true, decide_eq_true_eq, decide_eq_true_eq]
      simp only [isEmpty, Bool.and_eq_true, decide_eq_true_eq] at hempty
      constructor
      · rintro ⟨hab, hba⟩
        -- a byte that both have is the later one of the two starts
        by_cases hboth : a.offsets.start < a.offsets.stop ∧ b.offsets.start < b.offsets.stop
        · exact .inl ⟨max a.offsets.start b.offsets.start, by omega, by omega⟩
        · omega
      · rintro (⟨byte, hbyte⟩ | h) <;> omega
  · rw [overlaps, if_pos hfile]
    simp [hfile]

namespace EditSelection

variable {edits : List Edit} {edit other : Edit} {others : List Replacement}
  {verdicts verdicts' : List Bool}

/-! ### What the verdicts have to be -/

/-- Two replacements at different places of an edit overlap. -/
def ClashesWithItself (edit : Edit) : Prop :=
  ∃ (i j : Nat) (first second : Replacement), i ≠ j ∧ edit[i]? = some first ∧
    edit[j]? = some second ∧ first.range.overlaps second.range = true

/-- A replacement of one edit overlaps a replacement of another one. -/
def Clash (edit other : Edit) : Prop :=
  ∃ first ∈ edit, ∃ second ∈ other, first.range.overlaps second.range = true

/-- The verdicts on some edits; `true` stands for an accepted edit. -/
structure Judges (edits : List Edit) (verdicts : List Bool) : Prop where
  length_eq : verdicts.length = edits.length
  /-- Only edits that are accepted, and come before, stand in the way of an edit. -/
  refused_iff : ∀ (i : Nat) (edit : Edit), edits[i]? = some edit →
    (verdicts[i]? = some false ↔ ClashesWithItself edit ∨
      ∃ j < i, ∃ other, verdicts[j]? = some true ∧ edits[j]? = some other ∧ Clash other edit)

/-- The edits on which there is a given verdict, in their order. -/
def withVerdict (verdict : Bool) (edits : List Edit) (verdicts : List Bool) : List Edit :=
  ((edits.zip verdicts).filter (·.2 == verdict)).map (·.1)

theorem mem_withVerdict {verdict : Bool} :
    edit ∈ withVerdict verdict edits verdicts ↔
      ∃ i : Nat, edits[i]? = some edit ∧ verdicts[i]? = some verdict := by
  have hmem : edit ∈ withVerdict verdict edits verdicts ↔ (edit, verdict) ∈ edits.zip verdicts := by
    simp only [withVerdict, List.mem_map, List.mem_filter, beq_iff_eq]
    constructor
    · rintro ⟨⟨edit, verdict⟩, ⟨hmem, rfl⟩, rfl⟩
      exact hmem
    · exact fun hmem => ⟨(edit, verdict), ⟨hmem, rfl⟩, rfl⟩
  rw [hmem, List.mem_iff_getElem?]
  exact exists_congr fun i => List.getElem?_zip_eq_some

theorem withVerdict_append_singleton (h : verdicts.length = edits.length) (verdict given : Bool)
    (edit : Edit) :
    withVerdict verdict (edits ++ [edit]) (verdicts ++ [given]) =
      withVerdict verdict edits verdicts ++ if given = verdict then [edit] else [] := by
  rw [withVerdict, List.zip_append h.symm, List.filter_append, List.map_append, withVerdict]
  by_cases hgiven : given = verdict <;> simp [hgiven]

/-- Every edit has one of the two verdicts. -/
theorem withVerdict_perm (h : verdicts.length = edits.length) :
    (withVerdict true edits verdicts ++ withVerdict false edits verdicts).Perm edits := by
  have hnot : (fun judged : Edit × Bool => judged.2 == false) =
      fun judged => !(judged.2 == true) := by
    funext judged
    cases judged.2 <;> rfl
  have hperm := (List.filter_append_perm (fun judged : Edit × Bool => judged.2 == true)
    (edits.zip verdicts)).map Prod.fst
  rwa [← hnot, List.map_append, List.map_fst_zip (Nat.le_of_eq h.symm)] at hperm

/-- There is at most one way to judge edits. -/
theorem Judges.unique (h : Judges edits verdicts) (h' : Judges edits verdicts') :
    verdicts = verdicts' := by
  have hlength : verdicts.length = verdicts'.length := h.length_eq.trans h'.length_eq.symm
  refine List.ext_getElem? fun i => ?_
  -- the verdict on an edit is settled by the verdicts on those before it
  induction i using Nat.strongRecOn with
  | _ i ih =>
    cases hedit : edits[i]? with
    | none =>
      have hle := List.getElem?_eq_none_iff.1 hedit
      rw [List.getElem?_eq_none_iff.2 (h.length_eq ▸ hle),
        List.getElem?_eq_none_iff.2 (h'.length_eq ▸ hle)]
    | some edit =>
      have hlt := (List.getElem?_eq_some_iff.1 hedit).1
      have hsame : verdicts[i]? = some false ↔ verdicts'[i]? = some false := by
        rw [h.refused_iff i edit hedit, h'.refused_iff i edit hedit]
        refine or_congr_right (exists_congr fun j => and_congr_right fun hj => ?_)
        rw [ih j hj]
      rw [List.getElem?_eq_getElem (h.length_eq ▸ hlt),
        List.getElem?_eq_getElem (h'.length_eq ▸ hlt)] at hsame ⊢
      simp only [Option.some.injEq] at hsame ⊢
      exact Bool.eq_iff_iff.2 (by simpa using not_congr hsame)

/-! ### What the verdicts are -/

/-- An edit keeps clear of itself if its replacements are apart. -/
theorem not_clashesWithItself_iff : ¬ ClashesWithItself edit ↔ Apart edit := by
  rw [Apart, List.pairwise_iff_getElem]
  constructor
  · intro h i j hi hj hlt
    refine Bool.eq_false_iff.2 fun hoverlaps => h ⟨i, j, edit[i], edit[j], Nat.ne_of_lt hlt, ?_⟩
    simp [hoverlaps]
  · rintro h ⟨i, j, first, second, hne, hfirst, hsecond, hoverlaps⟩
    obtain ⟨hi, rfl⟩ := List.getElem?_eq_some_iff.1 hfirst
    obtain ⟨hj, rfl⟩ := List.getElem?_eq_some_iff.1 hsecond
    rcases Nat.lt_or_gt_of_ne hne with hlt | hgt
    · simp [h i j hi hj hlt] at hoverlaps
    · rw [SourceRange.overlaps_comm] at hoverlaps
      simp [h j i hj hi hgt] at hoverlaps

/-- An edit is compatible with some replacements that are apart if it adds no overlap. -/
theorem isCompatible_eq_false_iff (hothers : Apart others) :
    isCompatible others edit = false ↔ ClashesWithItself edit ∨ Clash others edit := by
  rw [← not_iff_not, not_or, not_clashesWithItself_iff, Bool.not_eq_false]
  constructor
  · intro h
    obtain ⟨-, hedit, hcross⟩ := List.pairwise_append.1 (apart_append hothers h)
    refine ⟨hedit, ?_⟩
    rintro ⟨first, hfirst, second, hsecond, hoverlaps⟩
    simp [hcross first hfirst second hsecond] at hoverlaps
  · rintro ⟨hedit, hclash⟩
    refine isCompatible_of_apart (List.pairwise_append.2 ⟨hothers, hedit, ?_⟩)
    intro first hfirst second hsecond
    exact Bool.eq_false_iff.2 fun hoverlaps => hclash ⟨first, hfirst, second, hsecond, hoverlaps⟩

/-- An edit clashes with the accepted replacements if it clashes with an accepted edit. -/
theorem clash_replacements_iff :
    Clash (withVerdict true edits verdicts).flatten edit ↔
      ∃ (j : Nat) (other : Edit),
        verdicts[j]? = some true ∧ edits[j]? = some other ∧ Clash other edit := by
  constructor
  · rintro ⟨first, hfirst, hclash⟩
    obtain ⟨other, hother, hfirst⟩ := List.mem_flatten.1 hfirst
    obtain ⟨j, hedit, hverdict⟩ := mem_withVerdict.1 hother
    exact ⟨j, other, hverdict, hedit, first, hfirst, hclash⟩
  · rintro ⟨j, other, hverdict, hedit, first, hfirst, hclash⟩
    have hother := mem_withVerdict.2 ⟨j, hedit, hverdict⟩
    exact ⟨first, List.mem_flatten.2 ⟨other, hother, hfirst⟩, hclash⟩

/-- Judging one more edit does not change the verdicts on the others. -/
theorem Judges.append_singleton (h : Judges edits verdicts) {verdict : Bool}
    (hverdict : verdict = false ↔ ClashesWithItself edit ∨
      ∃ (j : Nat) (other : Edit),
        verdicts[j]? = some true ∧ edits[j]? = some other ∧ Clash other edit) :
    Judges (edits ++ [edit]) (verdicts ++ [verdict]) := by
  refine ⟨by simp [h.length_eq], fun i judged hjudged => ?_⟩
  -- what stands before an edit are edits that have been judged before
  have hearlier (j : Nat) (hj : j < edits.length) :
      (edits ++ [edit])[j]? = edits[j]? ∧ (verdicts ++ [verdict])[j]? = verdicts[j]? :=
    ⟨List.getElem?_append_left hj, List.getElem?_append_left (h.length_eq ▸ hj)⟩
  rcases Nat.lt_or_ge i edits.length with hlt | hge
  · rw [(hearlier i hlt).1] at hjudged
    rw [(hearlier i hlt).2, h.refused_iff i judged hjudged]
    refine or_congr_right (exists_congr fun j => and_congr_right fun hj => ?_)
    rw [(hearlier j (Nat.lt_trans hj hlt)).1, (hearlier j (Nat.lt_trans hj hlt)).2]
  · obtain rfl : i = edits.length := by
      have := (List.getElem?_eq_some_iff.1 hjudged).1
      simp at this
      omega
    obtain rfl : edit = judged := by simpa using hjudged
    have hlast : (verdicts ++ [verdict])[edits.length]? = some verdict := by
      simp [← h.length_eq]
    rw [hlast, Option.some.injEq, hverdict]
    refine or_congr_right (exists_congr fun j => ?_)
    constructor
    · rintro ⟨other, hother, hedit, hclash⟩
      have hj := (List.getElem?_eq_some_iff.1 hedit).1
      exact ⟨hj, other, (hearlier j hj).2.trans hother, (hearlier j hj).1.trans hedit, hclash⟩
    · rintro ⟨hj, other, hother, hedit, hclash⟩
      rw [(hearlier j hj).1] at hedit
      rw [(hearlier j hj).2] at hother
      exact ⟨other, hother, hedit, hclash⟩

/-- The accepted edits and the refused ones are the edits with the one and the other verdict. -/
theorem ofEdits_eq (edits : List Edit) :
    ∃ verdicts, Judges edits verdicts ∧
      ofEdits edits = ⟨withVerdict true edits verdicts, withVerdict false edits verdicts⟩ := by
  induction edits using List.reverseRecOn with
  | nil => exact ⟨[], ⟨rfl, by simp⟩, rfl⟩
  | append_singleton edits edit ih =>
    obtain ⟨verdicts, hjudges, hselection⟩ := ih
    let verdict := isCompatible (ofEdits edits).replacements edit
    refine ⟨verdicts ++ [verdict], hjudges.append_singleton ?_, ?_⟩
    · rw [isCompatible_eq_false_iff (apart_ofEdits edits), replacements, hselection,
        clash_replacements_iff]
    · rw [withVerdict_append_singleton hjudges.length_eq,
        withVerdict_append_singleton hjudges.length_eq, ofEdits, List.foldl_append,
        List.foldl_cons, List.foldl_nil, ← ofEdits, add]
      cases hverdict : isCompatible (ofEdits edits).replacements edit <;>
        simp [verdict, hverdict, hselection]

/-! ### What becomes of refused edits -/

/-- The table of new texts depends on what becomes of each file, and on nothing else. -/
theorem editFiles_congr {selection selection' : EditSelection} {loader loader' : Loader}
    {files : List String}
    (h : ∀ file ∈ files, selection.editFile loader file = selection'.editFile loader' file)
    (table : FileTable) :
    selection.editFiles loader files table = selection'.editFiles loader' files table := by
  induction files generalizing table with
  | nil => rfl
  | cons file files ih =>
    have hfile := h file List.mem_cons_self
    have hfiles := ih fun later hmem => h later (List.mem_cons_of_mem _ hmem)
    simp only [editFiles, hfile, hfiles]

/-- The accepted edits alone have the same outcome, except that none of them is refused. -/
theorem applyEditsIn_accepted (order : EditSelection → List String) (edits : List Edit)
    (loader : Loader) :
    applyEditsIn (fun _ => order (ofEdits edits)) (ofEdits edits).accepted loader =
      (applyEditsIn order edits loader).bind fun result =>
        .done { result with incompatible := [] } := by
  have hfiles : ∀ file ∈ order (ofEdits edits),
      editFile ⟨(ofEdits edits).accepted, []⟩ loader file = (ofEdits edits).editFile loader file :=
    fun _ _ => rfl
  rw [applyEditsIn, ofEdits_of_apart (apart_ofEdits edits), editFiles_congr hfiles, applyEditsIn]
  cases (ofEdits edits).editFiles loader (order (ofEdits edits)) .empty <;> rfl

/-- Every edit is accepted or refused, and the accepted and the refused edits keep their order. An
edit is refused exactly if two of its replacements overlap, or one of them overlaps a replacement of
an edit accepted before; so no two replacements of accepted edits overlap, and refused edits have no
effect. Ranges overlap, both ways round, exactly if they touch the same text of the same file. -/
theorem applyEditsIn_verdicts (edits : List Edit) :
    ∃ verdicts accepted refused, Judges edits verdicts ∧
      (∀ other, Judges edits other → other = verdicts) ∧
      accepted = withVerdict true edits verdicts ∧
      refused = withVerdict false edits verdicts ∧
      (accepted ++ refused).Perm edits ∧
      ofEdits edits = ⟨accepted, refused⟩ ∧
      ¬ ClashesWithItself accepted.flatten ∧
      (∀ (order : EditSelection → List String) (loader : Loader),
        (∀ result, applyEditsIn order edits loader = .done result →
          result.applied = accepted ∧ result.incompatible = refused) ∧
        applyEditsIn (fun _ => order ⟨accepted, refused⟩) accepted loader =
          (applyEditsIn order edits loader).bind fun result =>
            .done { result with incompatible := [] }) ∧
      ∀ a b : SourceRange, a.overlaps b = b.overlaps a ∧
        (a.offsets.start ≤ a.offsets.stop → b.offsets.start ≤ b.offsets.stop →
          (a.overlaps b = true ↔ a.file = b.file ∧ a.offsets.Touches b.offsets)) := by
  obtain ⟨verdicts, hjudges, hselection⟩ := ofEdits_eq edits
  refine ⟨verdicts, _, _, hjudges, fun other hother => hother.unique hjudges, rfl, rfl,
    withVerdict_perm hjudges.length_eq, hselection, ?_, fun order loader => ⟨?_, ?_⟩,
    fun a b => ⟨a.overlaps_comm b, SourceRange.overlaps_iff_touches⟩⟩
  · have hapart := apart_ofEdits edits
    rw [replacements, hselection] at hapart
    exact not_clashesWithItself_iff.2 hapart
  · intro result hresult
    obtain ⟨files, -, hresult⟩ := Outcome.bind_eq_done hresult
    obtain rfl := Outcome.done.inj hresult
    rw [hselection]
    exact ⟨rfl, rfl⟩
  · have h := applyEditsIn_accepted order edits loader
    rwa [hselection] at h

/-- The second edit overlaps the first one in one of its replacements and is refused as a whole, so
that the third one may insert where it wanted to. -/
theorem applyEditsIn_verdicts_refused :
    let replacement (start stop : Nat) (text : String) : Replacement :=
      ⟨⟨"a", ⟨0, 0⟩, ⟨0, 0⟩, ⟨start, stop⟩⟩, text⟩
    let edits := [[replacement 0 2 "x"], [replacement 3 3 "y", replacement 1 3 "y"],
      [replacement 3 3 "z"]]
    let result : EditResult := ⟨[[replacement 0 2 "x"], [replacement 3 3 "z"]],
      [[replacement 3 3 "y", replacement 1 3 "y"]], .ofList [("a", "xczd")]⟩
    ∃ verdicts, Judges edits verdicts ∧
      applyEdits edits (.ofTable (.ofList [("a", "abcd")])) = .done result ∧
      result.applied = withVerdict true edits verdicts ∧
      result.incompatible = withVerdict false edits verdicts ∧
      Extent.Touches ⟨0, 2⟩ ⟨1, 3⟩ := by
  intro replacement edits result
  have hselection : EditSelection.ofEdits edits = ⟨result.applied, result.incompatible⟩ := by
    decide +kernel
  have hsorted : (EditSelection.ofEdits edits).replacementsOf "a" =
      [replacement 3 3 "z", replacement 0 2 "x"] := by
    rw [hselection]
    simp [EditSelection.replacementsOf, EditSelection.replacements, result, replacement,
      List.mergeSort]
  have hresult : applyEdits edits (.ofTable (.ofList [("a", "abcd")])) = .done result := by
    have hfiles : (EditSelection.ofEdits edits).files = ["a"] := by
      rw [hselection]
      decide +kernel
    have hedit : (EditSelection.ofEdits edits).editFile (.ofTable (.ofList [("a", "abcd")])) "a" =
        .done "xczd" := by
      rw [EditSelection.editFile, hsorted]
      decide +kernel
    rw [applyEdits, applyEditsIn, hfiles, EditSelection.editFiles, hedit, hselection]
    rfl
  obtain ⟨verdicts, accepted, refused, hjudges, -, haccepted, hrefused, -, -, -, happly,
    hoverlaps⟩ := applyEditsIn_verdicts edits
  obtain ⟨happlied, hincompatible⟩ := (happly EditSelection.files _).1 result hresult
  refine ⟨verdicts, hjudges, hresult, happlied.trans haccepted, hincompatible.trans hrefused, ?_⟩
  -- the second range starts inside the first one
  have htouches := ((hoverlaps (replacement 0 2 "x").range (replacement 1 3 "y").range).2
    (by decide) (by decide)).1 (by decide)
  exact htouches.2

end EditSelection

end ElementLint
