import ElementLint.Linter
import ElementLint.Proofs.Edits.Apply
import ElementLint.Proofs.Rule.Places

/-!
# The fixes of a run

This module says what a run finds (`Linter.lint_eq`) and where its warnings come from
(`Linter.contributes_or_isOwn`). For the two rules that come with the linter the fixes of a run only
insert into the files as the rules saw them, so that they can always be applied over these files,
once each, whatever became of the files since (`Linter.lint_fixes`).
-/

namespace ElementLint

open Text

/-! ### Reports -/

namespace Linter

variable {linter : Linter} {url text : String} {urls : List String} {warning : Warning}

/-- What a linter finds in a file whose loader does not abort. -/
def reportOf (linter : Linter) (url : String) : FileReport :=
  match linter.lintFile url with
  | .done report => report
  | _ => ⟨[], none⟩

/-- The files that a linter looks at. -/
def selected (linter : Linter) (urls : List String) : List String :=
  urls.filter fun url => !linter.ignoresFile url

/-- What a linter finds in some files whose loader does not abort. -/
def resultsOf (linter : Linter) (urls : List String) : LintResults :=
  linter.gather ((linter.selected urls).map fun url => (url, linter.reportOf url))

theorem mem_selected :
    url ∈ linter.selected urls ↔ url ∈ urls ∧ linter.ignoresFile url = false := by
  simp [selected]

/-- A rule of a linter has a warning about a file. -/
def Contributes (linter : Linter) (url : String) (warning : Warning) : Prop :=
  ∃ document, linter.loader.parse url = .done document ∧
    ∃ rule ∈ linter.rules, ∃ warnings, rule.check document = .done warnings ∧ warning ∈ warnings

theorem reportOf_of_done (h : linter.loader.load url = .done text) :
    linter.reportOf url = linter.checkDocument (.parse url text) := by
  rw [reportOf, lintFile, Loader.parse, h]
  rfl

theorem reportOf_of_failed {error : LintError} (h : linter.loader.load url = .failed error) :
    linter.reportOf url = ⟨linter.keep [loadWarning url error], none⟩ := by
  rw [reportOf, lintFile, Loader.parse, h]
  rfl

theorem lintFile_eq_done (h : ∀ message, linter.loader.load url ≠ .aborted message) :
    linter.lintFile url = .done (linter.reportOf url) := by
  cases hload : linter.loader.load url with
  | done text =>
    rw [reportOf_of_done hload, lintFile, Loader.parse, hload]
    rfl
  | failed error =>
    rw [reportOf_of_failed hload, lintFile, Loader.parse, hload]
    rfl
  | aborted message => exact absurd hload (h message)

/-- The linter aborts over a file only if the loader does. -/
theorem lintFile_eq_aborted {message : Option String} :
    linter.lintFile url = .aborted message ↔ linter.loader.load url = .aborted message := by
  rw [lintFile, Loader.parse]
  cases linter.loader.load url <;> simp [Outcome.bind]

/-- A file that cannot be loaded has a report too. -/
theorem lintFile_ne_failed (linter : Linter) (url : String) (error : LintError) :
    linter.lintFile url ≠ .failed error := by
  rw [lintFile, Loader.parse]
  cases linter.loader.load url <;> simp [Outcome.bind]

/-- A run over files whose loader does not abort puts the reports on them together. -/
theorem lint_eq (h : ∀ url ∈ urls, linter.ignoresFile url = false →
      ∀ message, linter.loader.load url ≠ .aborted message) :
    linter.lint urls = .ok (linter.resultsOf urls) := by
  have hreports : (linter.selected urls).mapM
      (fun url => (linter.lintFile url).bind fun report => .done (url, report)) =
        .done ((linter.selected urls).map fun url => (url, linter.reportOf url)) := by
    refine Outcome.mapM_eq_done fun url hmem => ?_
    obtain ⟨hmem, hignored⟩ := mem_selected.1 hmem
    rw [lintFile_eq_done (h url hmem hignored)]
    rfl
  rw [selected] at hreports
  rw [lint, hreports]
  rfl

/-- A run has results unless the loader aborts on one of its files. -/
theorem exists_lint_eq_ok_iff (linter : Linter) (urls : List String) :
    (∃ results, linter.lint urls = .ok results) ↔
      ∀ url ∈ urls, linter.ignoresFile url = false →
        ∀ message, linter.loader.load url ≠ .aborted message := by
  refine ⟨?_, fun h => ⟨linter.resultsOf urls, lint_eq h⟩⟩
  rintro ⟨results, hresults⟩ url hmem hignored message hload
  unfold lint at hresults
  dsimp only at hresults
  split at hresults
  · next reports hreports =>
    obtain ⟨report, hreport⟩ :=
      Outcome.exists_done_of_mapM_eq_done hreports url (mem_selected.2 ⟨hmem, hignored⟩)
    rw [lintFile, Loader.parse, hload] at hreport
    contradiction
  · contradiction

/-- A run over a file over which the loader aborts has no results. -/
theorem lint_eq_error (h : ∃ url ∈ linter.selected urls, ∃ message,
      linter.loader.load url = .aborted message) :
    linter.lint urls = .error .workerAborted := by
  obtain ⟨url, hmem, message, hload⟩ := h
  have hnone : ¬ ∃ results, linter.lint urls = .ok results := by
    rw [exists_lint_eq_ok_iff]
    intro hnever
    exact hnever url (mem_selected.1 hmem).1 (mem_selected.1 hmem).2 message hload
  unfold lint at hnone ⊢
  dsimp only at hnone ⊢
  split at hnone
  · exact absurd ⟨_, rfl⟩ hnone
  · rfl

/-- The texts of a run are those in its reports. -/
theorem get?_contents_resultsOf (linter : Linter) (urls : List String) (url : String) :
    (linter.resultsOf urls).contents.get? url =
      if url ∈ linter.selected urls then (linter.reportOf url).contents else none := by
  have hcontents : (linter.resultsOf urls).contents = .ofList ((linter.selected urls).filterMap
      fun url => (linter.reportOf url).contents.map (url, ·)) := by
    rw [resultsOf, gather, List.filterMap_map]
    rfl
  have hentry : ∀ entry, entry ∈ (linter.selected urls).filterMap
      (fun url => (linter.reportOf url).contents.map (url, ·)) ↔
        entry.1 ∈ linter.selected urls ∧
          (linter.reportOf entry.1).contents = some entry.2 := by
    rintro ⟨name, text⟩
    simp [List.mem_filterMap]
  rw [hcontents, FileTable.get?_ofList (fun url => (linter.reportOf url).contents.getD "") url
    fun entry hmem => by rw [((hentry entry).1 hmem).2, Option.getD_some]]
  cases hreport : (linter.reportOf url).contents with
  | none =>
    -- a file without a text has no entry
    rw [if_neg, ite_self]
    intro hmem
    obtain ⟨entry, hfound, rfl⟩ := List.mem_map.1 hmem
    rw [((hentry entry).1 hfound).2] at hreport
    contradiction
  | some text =>
    refine if_congr ?_ rfl rfl
    rw [List.mem_map]
    constructor
    · rintro ⟨entry, hmem, rfl⟩
      exact ((hentry entry).1 hmem).1
    · exact fun hmem => ⟨(url, text), (hentry _).2 ⟨hmem, hreport⟩, rfl⟩

/-- The text of a file is what the loader answers. -/
theorem get?_contents_of_done (hurl : url ∈ linter.selected urls)
    (hload : linter.loader.load url = .done text) :
    (linter.resultsOf urls).contents.get? url = some text := by
  rw [get?_contents_resultsOf, if_pos hurl, reportOf_of_done hload]
  rfl

/-- The texts of a run whose loader does not abort are what the loader answers about its files. -/
theorem get?_contents_eq_some_iff (h : ∀ url ∈ linter.selected urls, ∀ message,
      linter.loader.load url ≠ .aborted message) :
    (linter.resultsOf urls).contents.get? url = some text ↔
      url ∈ linter.selected urls ∧ linter.loader.load url = .done text := by
  rw [get?_contents_resultsOf]
  by_cases hurl : url ∈ linter.selected urls
  · rw [if_pos hurl]
    cases hload : linter.loader.load url with
    | done loaded => simp [reportOf_of_done hload, checkDocument, Document.parse, Document.ofForest,
        hurl]
    | failed error => simp [reportOf_of_failed hload]
    | aborted message => exact absurd hload (h url hurl message)
  · simp [hurl]

/-- The fixes of a run are those of its reports. -/
theorem fixes_resultsOf (linter : Linter) (urls : List String) :
    (linter.resultsOf urls).fixes = (linter.selected urls).flatMap fun url =>
      (linter.reportOf url).warnings.filterMap (·.fix) := by
  simp [LintResults.fixes, resultsOf, gather, List.flatMap_map, List.filterMap_flatMap]

/-! ### Where warnings come from -/

/-- What a rule contributes points at a place of the text of the file, and its fix only inserts. -/
theorem Contributes.liesIn (hrules : ∀ rule ∈ linter.rules, rule.IsBuiltIn)
    (h : linter.Contributes url warning) :
    ∃ text, linter.loader.load url = .done text ∧ warning.LiesIn url text := by
  obtain ⟨document, hparse, rule, hrule, warnings, hcheck, hmem⟩ := h
  rw [Loader.parse] at hparse
  cases hload : linter.loader.load url with
  | done text =>
    rw [hload] at hparse
    obtain rfl := Outcome.done.inj hparse
    refine ⟨text, rfl, ?_⟩
    exact (hrules rule hrule).check_liesIn (Document.spansStand_parse url text) hcheck warning hmem
  | failed error =>
    rw [hload] at hparse
    contradiction
  | aborted message =>
    rw [hload] at hparse
    contradiction

/-- A warning of the linter itself: it has no fix. -/
def IsOwn (warning : Warning) : Prop :=
  warning.fix = none ∧ (warning.code = couldNotLoad ∨ warning.code = internalLintError)

/-- The warnings about a file come from the rules or from the linter itself. -/
theorem contributes_or_isOwn (h : warning ∈ (linter.reportOf url).warnings) :
    linter.Contributes url warning ∨ IsOwn warning := by
  cases hload : linter.loader.load url with
  | done text =>
    rw [reportOf_of_done hload, checkDocument, keep, List.mem_filter, sortWarnings,
      List.mem_mergeSort, List.mem_flatMap] at h
    obtain ⟨⟨rule, hrule, hmem⟩, -⟩ := h
    -- a rule that fails or aborts is reported instead
    unfold ruleWarnings at hmem
    split at hmem
    · next warnings hcheck =>
      refine .inl ⟨.parse url text, ?_, rule, hrule, warnings, hcheck, hmem⟩
      rw [Loader.parse, hload]
      rfl
    · obtain rfl := List.mem_singleton.1 hmem
      exact .inr ⟨rfl, .inr rfl⟩
    · obtain rfl := List.mem_singleton.1 hmem
      exact .inr ⟨rfl, .inr rfl⟩
  | failed error =>
    rw [reportOf_of_failed hload, keep, List.mem_filter, List.mem_singleton] at h
    obtain ⟨rfl, -⟩ := h
    exact .inr ⟨rfl, .inl rfl⟩
  | aborted message =>
    rw [reportOf, lintFile, Loader.parse, hload] at h
    contradiction

/-- The fixes of a run only insert into the files as the rules saw them. -/
theorem insertIntoFiles_fixes (hrules : ∀ rule ∈ linter.rules, rule.IsBuiltIn)
    (urls : List String) :
    InsertIntoFiles (linter.resultsOf urls).contents (linter.resultsOf urls).fixes := by
  rw [fixes_resultsOf]
  intro edit hedit replacement hreplacement
  obtain ⟨url, hurl, hedit⟩ := List.mem_flatMap.1 hedit
  obtain ⟨warning, hwarning, hfix⟩ := List.mem_filterMap.1 hedit
  rcases contributes_or_isOwn hwarning with hcontributes | hown
  · obtain ⟨text, hload, hlies⟩ := hcontributes.liesIn hrules
    have hinserts := hlies.fix_inserts edit hfix replacement hreplacement
    refine ⟨text, ?_, hinserts.range_liesIn.file_eq ▸ hinserts⟩
    rw [hinserts.range_liesIn.file_eq, get?_contents_of_done hurl hload]
  · rw [hown.1] at hfix
    contradiction

/-! ### Repeated files -/

/-- The files that a linter looks at, each once, are those of the given files, each once. -/
theorem selected_eraseDups (linter : Linter) (urls : List String) :
    linter.selected urls.eraseDups = (linter.selected urls).eraseDups := by
  induction urls using List.reverseRecOn with
  | nil => rfl
  | append_singleton urls url ih =>
    rw [selected] at ih ⊢
    rw [selected, List.eraseDups_append, List.filter_append, List.filter_append,
      List.eraseDups_append, ih]
    congr 1
    -- a file that is new or comes up again is so among the selected files too
    by_cases hmem : url ∈ urls
    · simp [List.removeAll, hmem]
    · cases hignored : linter.ignoresFile url with
      | true => simp [List.removeAll, hmem, hignored]
      | false => simp [List.removeAll, hmem, hignored]

/-- Files that come up again change nothing in what the fixes of a run make of the files. -/
theorem files_insertInto_eraseDups (linter : Linter) (urls : List String) :
    ((EditSelection.ofEdits (linter.resultsOf urls.eraseDups).fixes).insertInto
        (linter.resultsOf urls.eraseDups).contents).files =
      ((EditSelection.ofEdits (linter.resultsOf urls).fixes).insertInto
        (linter.resultsOf urls).contents).files := by
  refine EditSelection.files_insertInto_congr ?_ fun url => ?_
  · rw [fixes_resultsOf, fixes_resultsOf, selected_eraseDups,
      EditSelection.replacements_flatMap_eraseDups]
  · rw [get?_contents_resultsOf, get?_contents_resultsOf, selected_eraseDups]
    exact if_congr List.mem_eraseDups rfl rfl

/-- A run of the two rules that come with the linter. Every warning of a rule points at a place of
the file that it is about, as the rule saw it, and its fix only inserts into that file. The fixes
can be applied over the files as the rules saw them, and all that are accepted are made; the result
does not depend on the order in which the files are visited or on what has become of them, and a
file that is given more than once is changed as if it was given once. -/
theorem lint_fixes (linter : Linter) (urls : List String)
    (hrules : ∀ rule ∈ linter.rules, rule.IsBuiltIn)
    (hloader : ∀ url ∈ urls, linter.ignoresFile url = false →
      ∀ message, linter.loader.load url ≠ .aborted message) :
    ∃ results once, linter.lint urls = .ok results ∧ linter.lint urls.eraseDups = .ok once ∧
      (∀ url ∈ urls, linter.ignoresFile url = false → ∀ warning, linter.Contributes url warning →
        ∃ text, linter.loader.load url = .done text ∧ results.contents.get? url = some text ∧
          warning.LiesIn url text) ∧
      (∀ warning ∈ results.warnings,
        (∃ url ∈ urls, linter.ignoresFile url = false ∧ linter.Contributes url warning) ∨
          IsOwn warning) ∧
      ∃ result onceResult, result.applied = (EditSelection.ofEdits results.fixes).accepted ∧
        result.incompatible = (EditSelection.ofEdits results.fixes).refused ∧
        result.InsertsInto results.contents results.fixes ∧
        onceResult.InsertsInto once.contents once.fixes ∧
        onceResult.files = result.files ∧
        ∀ (order : EditSelection → List String) (fallback : Loader),
          (∀ selection, (order selection).Perm selection.files) →
          applyEditsIn order results.fixes (.overlay results.contents fallback) = .done result ∧
          applyEditsIn order once.fixes (.overlay once.contents fallback) = .done onceResult := by
  have honce : ∀ url ∈ urls.eraseDups, linter.ignoresFile url = false →
      ∀ message, linter.loader.load url ≠ .aborted message :=
    fun url hmem => hloader url (List.mem_eraseDups.1 hmem)
  -- the texts as the rules saw them are laid over whatever loader there is, so the fixes fit
  have hfixes := insertIntoFiles_fixes hrules urls
  have hfixesOnce := insertIntoFiles_fixes hrules urls.eraseDups
  refine ⟨linter.resultsOf urls, linter.resultsOf urls.eraseDups, lint_eq hloader, lint_eq honce,
    ?_, ?_, (EditSelection.ofEdits (linter.resultsOf urls).fixes).insertInto _, _, rfl, rfl,
    EditSelection.insertsInto_insertInto hfixes, EditSelection.insertsInto_insertInto hfixesOnce,
    files_insertInto_eraseDups linter urls, ?_⟩
  · intro url hmem hignored warning hcontributes
    obtain ⟨text, hload, hlies⟩ := hcontributes.liesIn hrules
    exact ⟨text, hload, get?_contents_of_done (mem_selected.2 ⟨hmem, hignored⟩) hload, hlies⟩
  · intro warning hwarning
    rw [resultsOf, gather, List.flatMap_map] at hwarning
    obtain ⟨url, hurl, hwarning⟩ := List.mem_flatMap.1 hwarning
    obtain ⟨hmem, hignored⟩ := mem_selected.1 hurl
    exact (contributes_or_isOwn hwarning).imp_left fun h => ⟨url, hmem, hignored, h⟩
  · intro order fallback horder
    exact ⟨applyEditsIn_eq_insertInto hfixes horder fallback,
      applyEditsIn_eq_insertInto hfixesOnce horder fallback⟩

/-- A file that is linted twice, and is gone when the fixes are applied: its button is warned of
twice, the fix is made once, and what is made of the text is the same as for the file given once.
-/
theorem lint_fixes_twice :
    let text := "<dom-module><template>é<paper-button>"
    let changed := "<dom-module><template>\n" ++ PaperButtonStyle.snippet ++ "é<paper-button>"
    let linter : Linter :=
      { rules := [PaperButtonStyle.rule, ContentToSlotUsages.rule]
        loader := .ofTable (.ofList [("a", text)]) }
    let fix : Edit := [⟨⟨"a", ⟨0, 22⟩, ⟨0, 22⟩, ⟨22, 22⟩⟩, "\n" ++ PaperButtonStyle.snippet⟩]
    let warning : Warning :=
      { code := PaperButtonStyle.code, message := PaperButtonStyle.message, severity := .warning
        range := ⟨"a", ⟨0, 23⟩, ⟨0, 37⟩, ⟨24, 38⟩⟩, fix := some fix }
    ∃ results once, linter.lint ["a", "a"] = .ok results ∧ linter.lint ["a"] = .ok once ∧
      results.warnings = [warning, warning] ∧ linter.Contributes "a" warning ∧
      results.contents.get? "a" = some text ∧ warning.LiesIn "a" text ∧
      ∃ result onceResult, result.applied = [fix] ∧ result.incompatible = [fix] ∧
        result.files.get? "a" = some changed ∧
        result.InsertsInto results.contents results.fixes ∧ onceResult.files = result.files ∧
        applyEdits results.fixes (.overlay results.contents (.ofTable .empty)) = .done result ∧
        applyEdits once.fixes (.overlay once.contents (.ofTable .empty)) = .done onceResult := by
  intro text changed linter fix warning
  have hload : linter.loader.load "a" = .done text := rfl
  have hrules : ∀ rule ∈ linter.rules, rule.IsBuiltIn := by simp [linter, Rule.IsBuiltIn]
  have hloader : ∀ url ∈ ["a", "a"], linter.ignoresFile url = false →
      ∀ message, linter.loader.load url ≠ .aborted message := by
    intro url hmem _ message
    obtain rfl : url = "a" := by simpa using hmem
    simp [hload]
  -- the one rule finds the button, and the other one nothing
  have hbutton : PaperButtonStyle.check (.parse "a" text) = .ok [warning] := by decide +kernel
  have hslots : ContentToSlotUsages.check (.parse "a" text) = .ok [] := by decide +kernel
  have hbuttonRule := PaperButtonStyle.rule_check_eq_done_iff.2 hbutton
  have hslotsRule := ContentToSlotUsages.rule_check_eq_done_iff.2 hslots
  have hreport : (linter.reportOf "a").warnings = [warning] := by
    rw [reportOf_of_done hload]
    simp [checkDocument, linter, ruleWarnings, hbuttonRule, hslotsRule, sortWarnings, keep]
  obtain ⟨results, once, hresults, honce, hplaces, -, result, onceResult, happlied, hrefused,
    hinserts, -, hfiles, happly⟩ := lint_fixes linter ["a", "a"] hrules hloader
  have hwarnings : results.warnings = [warning, warning] := by
    obtain rfl := Except.ok.inj ((lint_eq hloader).symm.trans hresults)
    have hselected : linter.selected ["a", "a"] = ["a", "a"] := rfl
    simp [resultsOf, gather, hselected, hreport]
  -- the fix that comes again goes to the place of the first one and is refused
  have hselection : EditSelection.ofEdits results.fixes = ⟨[fix], [fix]⟩ := by
    have hfixes : results.fixes = [fix, fix] := by rw [LintResults.fixes, hwarnings]; rfl
    rw [hfixes]
    decide +kernel
  rw [hselection] at happlied hrefused
  have hcontributes : linter.Contributes "a" warning :=
    ⟨.parse "a" text, by rw [Loader.parse, hload]; rfl, PaperButtonStyle.rule, by simp [linter],
      [warning], hbuttonRule, List.mem_singleton_self _⟩
  obtain ⟨text', hload', hcontents, hlies⟩ := hplaces "a" (by simp) rfl warning hcontributes
  obtain rfl : text = text' := Outcome.done.inj (hload.symm.trans hload')
  have hchanged : result.files.get? "a" = some changed := by
    rw [hinserts.get?_files, happlied, hcontents]
    decide +kernel
  obtain ⟨happly, happlyOnce⟩ := happly EditSelection.files (.ofTable .empty) fun _ => .refl _
  exact ⟨results, once, hresults, honce, hwarnings, hcontributes, hcontents, hlies, result,
    onceResult, happlied, hrefused, hchanged, hinserts, hfiles, happly, happlyOnce⟩

end Linter

end ElementLint
