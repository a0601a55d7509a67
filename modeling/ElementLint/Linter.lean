import ElementLint.Config
import ElementLint.Registry
import ElementLint.Loader.Basic
import ElementLint.Warning.Underline

/-!
# Linting

A `Linter` runs rules over the files that a loader serves. Each file is looked at on its own
(`Linter.lintFile`): it is loaded and parsed, every rule checks it, and the warnings are put in the
order of their places. A rule that fails, and a file that cannot be loaded, give a warning of their
own. The warnings of several files come in the order of the files.
-/

namespace ElementLint

/-- The code of the warning about a file that cannot be loaded. -/
def couldNotLoad : String := "could-not-load"

/-- The code of the warning about a rule that fails on a file. -/
def internalLintError : String := "internal-lint-error"

/-- Rules, the source of the files that they check, and what is left out. -/
structure Linter where
  rules : List Rule
  loader : Loader
  /-- The codes of the warnings that are dropped. -/
  ignoredWarnings : List String := []
  /-- Patterns for the files that are never linted. -/
  ignoredFiles : List Glob := []
  /-- A bound on the number of files that are looked at together. -/
  workers : Nat := 1

/-- What a linter finds in a file. -/
structure FileReport where
  warnings : List Warning
  /-- The text of the file, if it was loaded. -/
  contents : Option String
  deriving DecidableEq, Repr, Inhabited

/-- What a linter finds in some files. -/
structure LintResults where
  warnings : List Warning
  /-- The texts of the files as the rules saw them. -/
  contents : FileTable
  /-- The loader that the linter uses. -/
  source : Loader

namespace Linter

/-- The linter with the settings of a configuration. -/
def ofConfig (registry : Registry) (loader : Loader) (config : Config) :
    Except LintError Linter := do
  let rules ← registry.select config.ruleCodes
  let ignoredFiles ← config.ignoredPatterns
  return {
    rules
    loader
    ignoredWarnings := config.ignoredWarnings
    ignoredFiles
    workers := max 1 (config.workers.getD 1) }

/-- Whether a file is never linted. -/
def ignoresFile (linter : Linter) (url : String) : Bool :=
  linter.ignoredFiles.any (·.accepts url)

/-- Some warnings without those that are dropped. -/
def keep (linter : Linter) (warnings : List Warning) : List Warning :=
  warnings.filter fun warning => !linter.ignoredWarnings.contains warning.code

/-- The error that an abort of a rule counts as. -/
def abortError (message : Option String) : LintError :=
  .ruleFailed ("panicked: " ++ message.getD "unknown panic")

/-- The warning about a rule that fails. -/
def failureWarning (document : Document) (rule : Rule) (error : LintError) : Warning where
  code := internalLintError
  message := "Rule " ++ rule.code ++ " failed on " ++ document.url ++ ": " ++ error.message
  severity := .error
  range := document.rangeOf ⟨0, 0⟩

/-- The warnings of a rule about a document. -/
def ruleWarnings (document : Document) (rule : Rule) : List Warning :=
  match rule.check document with
  | .done warnings => warnings
  | .failed error => [failureWarning document rule error]
  | .aborted message => [failureWarning document rule (abortError message)]

/-- Some warnings in the order of their places; those of one place stay in their order. -/
def sortWarnings (warnings : List Warning) : List Warning :=
  warnings.mergeSort (fun a b => decide (a.range.offsets.start ≤ b.range.offsets.start))

/-- What the rules find in a document. -/
def checkDocument (linter : Linter) (document : Document) : FileReport where
  warnings := linter.keep (sortWarnings (linter.rules.flatMap (ruleWarnings document)))
  contents := some document.contents

/-- The warning about a file that cannot be loaded. -/
def loadWarning (url : String) (error : LintError) : Warning where
  code := couldNotLoad
  message := error.message
  severity := .error
  range := .atStart url

/-- Looks at a file. This aborts only if the loader does. -/
def lintFile (linter : Linter) (url : String) : Outcome FileReport :=
  match linter.loader.parse url with
  | .done document => .done (linter.checkDocument document)
  | .failed error => .done ⟨linter.keep [loadWarning url error], none⟩
  | .aborted message => .aborted message

/-- Puts the reports on some files together. -/
def gather (linter : Linter) (reports : List (String × FileReport)) : LintResults where
  warnings := reports.flatMap (·.2.warnings)
  contents := .ofList (reports.filterMap fun (url, report) => report.contents.map (url, ·))
  source := linter.loader

/-- Looks at some files, except those that are never linted. -/
def lint (linter : Linter) (urls : List String) : Except LintError LintResults :=
  let urls := urls.filter fun url => !linter.ignoresFile url
  let report := fun url => (linter.lintFile url).bind fun report => .done (url, report)
  match urls.mapM report with
  | .done reports => .ok (linter.gather reports)
  -- a file that cannot be loaded has a report, so only an abort ends up here
  | _ => .error .workerAborted

/-- Looks at every file that the loader lists. -/
def lintPackage (linter : Linter) : Except LintError LintResults := do
  linter.lint (← linter.loader.list)

end Linter

namespace LintResults

/-- The loader that serves the files as the rules saw them, and other files from their source. -/
def loader (results : LintResults) : Loader :=
  .overlay results.contents results.source

/-- A warning with its line, or its message alone if the text of its file is not known. -/
def display (results : LintResults) (warning : Warning) : String :=
  match results.contents.get? warning.range.file with
  | some contents => warning.underline contents
  | none => "\n" ++ warning.message

/-- The fixes of the warnings, in their order. -/
def fixes (results : LintResults) : List Edit :=
  results.warnings.filterMap (·.fix)

end LintResults

end ElementLint
