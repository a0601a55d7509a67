import ElementLint.Proofs.Linter
import ElementLint.Proofs.Sorting
import ElementLint.Proofs.Text.SourceMap

/-!
# Rules that fail

A rule that fails or aborts on a document is reported by one warning at the start of the file
(`Linter.IsFailureOf`), and the other rules do not notice: with the rule the report on the file is
the report without it and that warning, if warnings of that kind are kept
(`Linter.lintFile_isolates`). The warnings of a report come in the order of their places; of those
at one place the ones of an earlier rule come first, in the order in which the rule answered them.
-/

namespace ElementLint

variable {linter : Linter} {url : String} {document : Document} {rule : Rule}

/-- A rule fails on a document for a reason: it reports an error, or it aborts. -/
def Rule.FailsFor (rule : Rule) (document : Document) (reason : String) : Prop :=
  (∃ error, rule.check document = .failed error ∧ reason = error.message) ∨
    ∃ message, rule.check document = .aborted message ∧
      reason = "Rule error: panicked: " ++ message.getD "unknown panic"

/-- A range that starts and ends at the first byte stands at the start of the file. -/
theorem Document.rangeOf_zero (document : Document) :
    document.rangeOf ⟨0, 0⟩ = .atStart document.url := by
  have hstart (text : List Char) : Position.ofOffset text 0 = ⟨0, 0⟩ :=
    SourceMap.position_append Text.endsLine_nil List.not_mem_nil text
  rw [rangeOf, hstart, SourceRange.atStart]

/-- The byte at which the range of a warning starts. -/
def Warning.place (warning : Warning) : Nat :=
  warning.range.offsets.start

namespace Linter

/-- A warning at the start of a file about a rule that fails on it. -/
structure IsFailureOf (url : String) (rule : Rule) (reason : String) (warning : Warning) :
    Prop where
  code_eq : warning.code = "internal-lint-error"
  message_eq : warning.message = "Rule " ++ rule.code ++ " failed on " ++ url ++ ": " ++ reason
  severity_eq : warning.severity = .error
  range_eq : warning.range = .atStart url
  fix_eq : warning.fix = none

/-- The warnings that a rule brings into the report on a file: those that it answers, or else the
one about its failure. -/
inductive Brings (url : String) (document : Document) (rule : Rule) : List Warning → Prop
  | answered {warnings : List Warning} :
      rule.check document = .done warnings → Brings url document rule warnings
  | failed {reason : String} {failure : Warning} :
      rule.FailsFor document reason → IsFailureOf url rule reason failure →
      Brings url document rule [failure]

theorem isFailureOf_failureWarning (hurl : document.url = url) (rule : Rule) (error : LintError) :
    IsFailureOf url rule error.message (failureWarning document rule error) where
  code_eq := rfl
  message_eq := by rw [← hurl]; rfl
  severity_eq := rfl
  range_eq := by rw [← hurl]; exact document.rangeOf_zero
  fix_eq := rfl

/-- A rule that does not answer is reported. -/
theorem exists_failure (hurl : document.url = url)
    (hfails : ∀ warnings, rule.check document ≠ .done warnings) :
    ∃ reason failure, rule.FailsFor document reason ∧ IsFailureOf url rule reason failure ∧
      ruleWarnings document rule = [failure] := by
  cases hcheck : rule.check document with
  | done warnings => exact absurd hcheck (hfails warnings)
  | failed error =>
    refine ⟨_, _, .inl ⟨error, hcheck, rfl⟩, isFailureOf_failureWarning hurl rule error, ?_⟩
    rw [ruleWarnings, hcheck]
  | aborted message =>
    refine ⟨_, _, .inr ⟨message, hcheck, ?_⟩,
      isFailureOf_failureWarning hurl rule (abortError message), ?_⟩
    · have hword : "Rule error: panicked: " = "Rule error: " ++ "panicked: " := by decide
      rw [hword, String.append_assoc]
      rfl
    · rw [ruleWarnings, hcheck]

theorem brings_ruleWarnings (hurl : document.url = url) (rule : Rule) :
    Brings url document rule (ruleWarnings document rule) := by
  by_cases hanswers : ∃ warnings, rule.check document = .done warnings
  · obtain ⟨warnings, hcheck⟩ := hanswers
    rw [ruleWarnings, hcheck]
    exact .answered hcheck
  · obtain ⟨reason, failure, hreason, hfailure, hwarnings⟩ :=
      exists_failure hurl (not_exists.1 hanswers)
    exact hwarnings ▸ .failed hreason hfailure

/-! ### Reports -/

theorem url_of_parse_eq_done (h : linter.loader.parse url = .done document) :
    document.url = url := by
  obtain ⟨text, -, h⟩ := Outcome.bind_eq_done h
  obtain rfl := Outcome.done.inj h
  rfl

theorem lintFile_of_parse_eq_done (h : linter.loader.parse url = .done document) :
    linter.lintFile url = .done (linter.checkDocument document) := by
  rw [lintFile, h]

theorem isStableSort_sortWarnings (warnings : List Warning) :
    IsStableSort Warning.place warnings (sortWarnings warnings) :=
  isStableSort_mergeSort Warning.place warnings

/-- The warnings of a report are what the rules bring, without what is dropped and in order. -/
theorem isStableSort_checkDocument (linter : Linter) (document : Document) :
    IsStableSort Warning.place
      (linter.keep (linter.rules.flatMap (ruleWarnings document)))
      (linter.checkDocument document).warnings :=
  (isStableSort_sortWarnings _).filter _

/-- A warning more among those that are found is a warning more in the report, unless it is
dropped. -/
theorem keep_sortWarnings_insert (linter : Linter) (before after : List Warning)
    (warning : Warning) :
    ∃ front back, linter.keep (sortWarnings (before ++ after)) = front ++ back ∧
      linter.keep (sortWarnings (before ++ warning :: after)) =
        front ++ linter.keep [warning] ++ back := by
  obtain ⟨front, back, hsorted, hothers⟩ :=
    (isStableSort_sortWarnings (before ++ warning :: after)).exists_insert
  have hunique := (isStableSort_sortWarnings (before ++ after)).unique hothers
  refine ⟨linter.keep front, linter.keep back, ?_, ?_⟩
  · rw [hunique, keep, List.filter_append, keep, keep]
  · rw [hsorted, keep, List.append_cons, List.filter_append, List.filter_append, keep, keep, keep]

/-- The report on a file holds what the rules bring, in the order of the places and, at one place,
of the rules; and a rule that does not answer changes nothing in it but for the one warning about
its failure, which is there unless warnings of that kind are dropped. -/
theorem lintFile_isolates (linter : Linter) (url : String) (document : Document)
    (hparse : linter.loader.parse url = .done document) :
    (∀ rules, ∃ report found, { linter with rules }.lintFile url = .done report ∧
      report.contents = some document.contents ∧
      List.Forall₂ (Brings url document) rules found ∧
      IsStableSort Warning.place (linter.keep found.flatten) report.warnings) ∧
    ∀ before rule after, (∀ warnings, rule.check document ≠ .done warnings) →
      ∃ reason failure report others,
        rule.FailsFor document reason ∧ IsFailureOf url rule reason failure ∧
        { linter with rules := before ++ [rule] ++ after }.lintFile url = .done report ∧
        { linter with rules := before ++ after }.lintFile url = .done others ∧
        report.contents = others.contents ∧
        if "internal-lint-error" ∈ linter.ignoredWarnings then report.warnings = others.warnings
        else ∃ front back, others.warnings = front ++ back ∧
          report.warnings = front ++ failure :: back := by
  have hurl := url_of_parse_eq_done hparse
  have hlint (rules : List Rule) : { linter with rules }.lintFile url =
      .done ({ linter with rules }.checkDocument document) :=
    @lintFile_of_parse_eq_done { linter with rules } _ _ hparse
  constructor
  · intro rules
    refine ⟨_, rules.map (ruleWarnings document), hlint rules, rfl, ?_, ?_⟩
    · rw [List.forall₂_map_right_iff, List.forall₂_same]
      exact fun rule _ => brings_ruleWarnings hurl rule
    · rw [← List.flatMap_def]
      exact isStableSort_checkDocument { linter with rules } document
  · intro before rule after hfails
    obtain ⟨reason, failure, hreason, hfailure, hwarnings⟩ := exists_failure hurl hfails
    -- sorting is stable, so the failure goes between two parts of the report without the rule
    obtain ⟨front, back, hothers, hreport⟩ := linter.keep_sortWarnings_insert
      (before.flatMap (ruleWarnings document)) (after.flatMap (ruleWarnings document)) failure
    have hfound : (before ++ [rule] ++ after).flatMap (ruleWarnings document) =
        before.flatMap (ruleWarnings document) ++ failure ::
          after.flatMap (ruleWarnings document) := by
      simp [hwarnings]
    refine ⟨reason, failure, _, _, hreason, hfailure, hlint _, hlint _, rfl, ?_⟩
    change if _ then keep linter (sortWarnings _) = keep linter (sortWarnings _)
      else ∃ front back, keep linter (sortWarnings _) = front ++ back ∧
        keep linter (sortWarnings _) = front ++ failure :: back
    rw [hfound, List.flatMap_append, hothers, hreport]
    split
    · next hignored =>
      have hdropped : linter.keep [failure] = [] := by simp [keep, hfailure.code_eq, hignored]
      rw [hdropped, List.append_nil]
    · next hkept =>
      have hkeep : linter.keep [failure] = [failure] := by simp [keep, hfailure.code_eq, hkept]
      exact ⟨front, back, rfl, by rw [hkeep, ← List.append_cons]⟩

/-- A rule aborts without a message between two rules that answer. -/
theorem lintFile_isolates_abort :
    let answering (message : String) : Rule :=
      ⟨"x", "", fun document => .done [⟨"x", message, .info, .atStart document.url, none⟩]⟩
    let aborting : Rule := ⟨"y", "", fun _ => .aborted none⟩
    let linter : Linter := { rules := [], loader := .ofTable (.ofList [("a", "é")]) }
    let document := Document.parse "a" "é"
    linter.loader.parse "a" = .done document ∧
      (∀ warnings, aborting.check document ≠ .done warnings) ∧
      ∃ failure report others front back,
        failure.message = "Rule y failed on a: Rule error: panicked: unknown panic" ∧
        { linter with rules := [answering "1"] ++ [aborting] ++ [answering "2"] }.lintFile "a" =
          .done report ∧
        { linter with rules := [answering "1"] ++ [answering "2"] }.lintFile "a" = .done others ∧
        others.warnings = front ++ back ∧ report.warnings = front ++ failure :: back := by
  intro answering aborting linter document
  have hparse : linter.loader.parse "a" = .done document := rfl
  have haborts (warnings : List Warning) : aborting.check document ≠ .done warnings := nofun
  obtain ⟨-, hisolates⟩ := lintFile_isolates linter "a" document hparse
  obtain ⟨reason, failure, report, others, hreason, hfailure, hreport, hothers, -, hwarnings⟩ :=
    hisolates [answering "1"] aborting [answering "2"] haborts
  rw [if_neg (by simp [linter])] at hwarnings
  obtain ⟨front, back, hfront, hback⟩ := hwarnings
  refine ⟨hparse, haborts, failure, report, others, front, back, ?_, hreport, hothers, hfront,
    hback⟩
  obtain ⟨error, herror, -⟩ | ⟨message, hmessage, rfl⟩ := hreason
  · contradiction
  · obtain rfl := Outcome.aborted.inj hmessage
    rw [hfailure.message_eq]
    decide

end Linter

end ElementLint
