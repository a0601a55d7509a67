import ElementLint.Proofs.Linter
import ElementLint.Proofs.Loader.Overlay

/-!
# The package behind the results of a run

The loader of a run's results answers like the loader of the linter
(`Linter.load_loader_resultsOf`), so that a further run over it finds the same in the same files
(`Linter.lint_congr`). It lists the files of the package and, besides, every file that was looked at
and had a text, whatever its name (`Linter.lists_loader_resultsOf`). So it lists the same package if
and only if no file of another sort was looked at (`Linter.list_loader_lint`).
-/

namespace ElementLint

/-- What a run has found out about files. -/
def LintResults.findings (results : LintResults) : List Warning × FileTable :=
  (results.warnings, results.contents)

namespace Linter

variable {linter : Linter} {loader other : Loader} {url : String} {urls names : List String}

/-! ### Loaders that answer alike -/

theorem lintFile_congr (h : ∀ url, loader.load url = other.load url) (url : String) :
    { linter with loader }.lintFile url = { linter with loader := other }.lintFile url := by
  rw [lintFile, lintFile, Loader.parse, Loader.parse, h]
  rfl

/-- What a run finds depends on what the loader answers. -/
theorem lint_congr (h : ∀ url, loader.load url = other.load url) (urls : List String) :
    ({ linter with loader }.lint urls).map LintResults.findings =
      ({ linter with loader := other }.lint urls).map LintResults.findings := by
  have hreport : (fun url => ({ linter with loader }.lintFile url).bind fun report =>
        Outcome.done (url, report)) =
      fun url => ({ linter with loader := other }.lintFile url).bind fun report =>
        Outcome.done (url, report) := by
    funext url
    rw [lintFile_congr h]
  rw [lint, lint, hreport]
  dsimp only [ignoresFile]
  split <;> rfl

/-- A run over a whole package depends on what the loader answers and lists. -/
theorem lintPackage_congr (h : ∀ url, loader.load url = other.load url)
    (hlist : loader.list = other.list) :
    ({ linter with loader }.lintPackage).map LintResults.findings =
      ({ linter with loader := other }.lintPackage).map LintResults.findings := by
  rw [lintPackage, lintPackage]
  dsimp only
  rw [hlist]
  cases other.list with
  | error error => rfl
  | ok names => exact lint_congr h names

/-! ### The loader of the results -/

/-- The files that were loaded had the texts that they still have. -/
theorem load_loader_resultsOf (h : ∀ url ∈ linter.selected urls, ∀ message,
      linter.loader.load url ≠ .aborted message) (url : String) :
    (linter.resultsOf urls).loader.load url = linter.loader.load url := by
  rw [LintResults.loader, Loader.load_overlay]
  cases htext : (linter.resultsOf urls).contents.get? url with
  | none => rfl
  | some text => exact ((get?_contents_eq_some_iff h).1 htext).2.symm

theorem mem_names_contents_resultsOf (h : ∀ url ∈ linter.selected urls, ∀ message,
      linter.loader.load url ≠ .aborted message) :
    url ∈ (linter.resultsOf urls).contents.names ↔
      url ∈ linter.selected urls ∧ ∃ text, linter.loader.load url = .done text := by
  rw [FileTable.mem_names_iff, ← exists_and_left]
  exact exists_congr fun text => get?_contents_eq_some_iff h

theorem lists_loader_resultsOf (h : linter.loader.Lists names) (urls : List String) :
    (linter.resultsOf urls).loader.Lists
      (Loader.sortedNames (names ++ (linter.resultsOf urls).contents.names)) :=
  h.overlay _

/-- The loader of the results of a run over files in memory. The run always has results. Their
loader answers like the one of the linter; it lists the files that this one lists and every file
that was looked at and could be loaded. So both list the same files if and only if all files that
were looked at and could be loaded have names that end in `.html`. In that case a run over the whole
package finds the same with either of them. -/
theorem list_loader_lint (linter : Linter) (insertions : List (String × String))
    (urls : List String) :
    let package := Loader.ofTable (.ofList insertions)
    ∃ results listed relisted,
      { linter with loader := package }.lint urls = .ok results ∧
      package.list = .ok listed ∧ results.loader.list = .ok relisted ∧
      relisted.Pairwise (· < ·) ∧
      (∀ url, results.loader.load url = package.load url) ∧
      (∀ url, url ∈ relisted ↔ url ∈ listed ∨
        (url ∈ urls ∧ linter.ignoresFile url = false) ∧
          ∃ text, package.load url = .done text) ∧
      (relisted = listed ↔ ∀ url ∈ urls, linter.ignoresFile url = false →
        ∀ text, package.load url = .done text → ∃ stem, url = stem ++ ".html") ∧
      (relisted = listed → ∀ other : Linter,
        ({ other with loader := results.loader }.lintPackage).map LintResults.findings =
          ({ other with loader := package }.lintPackage).map LintResults.findings) := by
  intro package
  have hnever := Loader.load_ofTable_ne_aborted (.ofList insertions)
  have hlists := Loader.lists_ofTable (FileTable.pairwise_names_ofList insertions)
  have hrelists : ({ linter with loader := package }.resultsOf urls).loader.Lists _ :=
    lists_loader_resultsOf hlists urls
  have hmem (url : String) :
      url ∈ ({ linter with loader := package }.resultsOf urls).contents.names ↔
        (url ∈ urls ∧ linter.ignoresFile url = false) ∧
          ∃ text, package.load url = .done text := by
    rw [mem_names_contents_resultsOf fun url _ => hnever url, mem_selected]
    rfl
  have hload : ∀ url, ({ linter with loader := package }.resultsOf urls).loader.load url =
      package.load url :=
    load_loader_resultsOf fun url _ => hnever url
  refine ⟨_, _, _, lint_eq fun url _ _ => hnever url, hlists.list_eq, hrelists.list_eq,
    hrelists.increasing, hload, fun url => ?_, ?_, fun heq other => ?_⟩
  · rw [Loader.mem_sortedNames, List.mem_append, hmem]
  · rw [Loader.sortedNames_append_eq_iff hlists.increasing]
    constructor
    · intro hlisted url hurl hignored text htext
      have hfound := hlisted url ((hmem url).2 ⟨⟨hurl, hignored⟩, text, htext⟩)
      exact Loader.isMarkupName_iff.1 (List.mem_filter.1 hfound).2
    · intro hmarkup url hurl
      obtain ⟨⟨hurl, hignored⟩, text, htext⟩ := (hmem url).1 hurl
      exact hlists.complete url text htext
        (Loader.isMarkupName_iff.2 (hmarkup url hurl hignored text htext))
  · exact lintPackage_congr hload (by rw [hrelists.list_eq, hlists.list_eq, heq])

/-- A run over a page and a missing file leaves the list of files alone. -/
theorem list_loader_lint_page :
    let linter : Linter := { rules := [], loader := .ofTable (.ofList [("a.html", "<p></p>")]) }
    ∃ results, linter.lint ["a.html", "b.txt"] = .ok results ∧
      results.loader.list = linter.loader.list ∧
      ({ linter with loader := results.loader }.lintPackage).map LintResults.findings =
        linter.lintPackage.map LintResults.findings := by
  intro linter
  obtain ⟨results, listed, relisted, hresults, hlisted, hrelisted, -, -, -, hiff, hpackage⟩ :=
    list_loader_lint linter [("a.html", "<p></p>")] ["a.html", "b.txt"]
  have hsame : relisted = listed := by
    refine hiff.2 fun url hmem _ text htext => ?_
    obtain rfl | rfl : url = "a.html" ∨ url = "b.txt" := by simpa using hmem
    · exact ⟨"a", by decide⟩
    · -- there is no such file
      cases htext
  exact ⟨results, hresults, by rw [hrelisted, hsame]; exact hlisted.symm, hpackage hsame linter⟩

/-- After a run over a file of another sort the package lists this file too. -/
theorem list_loader_lint_text_file :
    let linter : Linter :=
      { rules := [], loader := .ofTable (.ofList [("a.html", "<p></p>"), ("notes.txt", "x")]) }
    ∃ results, linter.lint ["notes.txt"] = .ok results ∧
      linter.loader.list = .ok ["a.html"] ∧
      results.loader.list = .ok ["a.html", "notes.txt"] := by
  intro linter
  refine ⟨_, rfl, by decide, ?_⟩
  change Except.ok (Loader.sortedNames (["a.html", "notes.txt"] ++ [])) = _
  rw [(Loader.sortedNames_append_eq_iff (by decide)).2 (by simp)]

end Linter

end ElementLint
