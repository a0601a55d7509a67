/-!
# Errors and outcomes

This module defines

* `FileFailure`, the reasons for which a file cannot be read,
* `LintError`, everything that an operation of the linter can report instead of a result, with its
  wording in `LintError.message`,
* `Outcome`, the way in which code supplied by a caller (a rule or a loader) ends: it answers,
  reports an error, or aborts in the middle.
-/

namespace ElementLint

/-- Why a file cannot be read. -/
inductive FileFailure where
  /-- A store of files has no file of that name. -/
  | unknownName
  /-- The name leads out of the folder that is served. -/
  | outsideRoot
  /-- Nothing has that path. -/
  | missing
  /-- The path names a folder. -/
  | isFolder
  /-- A step of the path goes through something that is not a folder. -/
  | notFolder
  /-- A component of the path is longer than a file system takes. -/
  | nameTooLong
  /-- The path holds a NUL character. -/
  | nulInName
  /-- The bytes of the file are not UTF-8. -/
  | notText
  deriving DecidableEq, Repr, Inhabited

/-- The wording of a failure. -/
def FileFailure.message : FileFailure → String
  | .unknownName => "no such file"
  | .outsideRoot => "url must stay inside the package root"
  | .missing => "No such file or directory (os error 2)"
  | .isFolder => "Is a directory (os error 21)"
  | .notFolder => "Not a directory (os error 20)"
  | .nameTooLong => "File name too long (os error 36)"
  | .nulInName => "file name contained an unexpected NUL byte"
  | .notText => "stream did not contain valid UTF-8"

/-- What an operation reports when it has no result. -/
inductive LintError where
  /-- A document cannot be parsed. -/
  | unparsed (detail : String)
  /-- A rule cannot finish its check. -/
  | ruleFailed (detail : String)
  /-- A second rule is registered under a code in use. -/
  | duplicateRule (code : String)
  /-- No rule is registered under a requested code. -/
  | unknownRule (code : String)
  /-- A file of the package cannot be loaded. -/
  | notLoaded (url : String) (cause : FileFailure)
  /-- An edit does not fit the text that it is made for. -/
  | invalidEdit (detail : String)
  /-- A configuration cannot be used. -/
  | invalidConfig (detail : String)
  /-- A file outside the package cannot be read. -/
  | unreadable (cause : FileFailure)
  /-- The files below a folder cannot be listed. -/
  | unlisted (root : String) (cause : FileFailure)
  /-- A worker of a lint run aborted. -/
  | workerAborted
  deriving DecidableEq, Repr, Inhabited

/-- The wording of an error. -/
def LintError.message : LintError → String
  | .unparsed detail => "Parse error: " ++ detail
  | .ruleFailed detail => "Rule error: " ++ detail
  | .duplicateRule code => "Duplicate rule code: " ++ code
  | .unknownRule code => "Unknown rule code: " ++ code
  | .notLoaded url cause => "Could not load " ++ url ++ ": " ++ cause.message
  | .invalidEdit detail => "Invalid edit: " ++ detail
  | .invalidConfig detail => "Config error: " ++ detail
  | .unreadable cause => "IO error: " ++ cause.message
  | .unlisted root cause => "IO error: IO error for operation on " ++ root ++ ": " ++ cause.message
  | .workerAborted => "A lint worker panicked"

/-- How code that a caller supplies ends. -/
inductive Outcome (α : Type) where
  /-- It answers. -/
  | done (value : α)
  /-- It reports an error. -/
  | failed (error : LintError)
  /-- It aborts, with a message if the abort carries one. -/
  | aborted (message : Option String)
  deriving DecidableEq, Repr, Inhabited

namespace Outcome

variable {α β : Type}

/-- Continues an answer and keeps any other end. -/
def bind (outcome : Outcome α) (next : α → Outcome β) : Outcome β :=
  match outcome with
  | .done value => next value
  | .failed error => .failed error
  | .aborted message => .aborted message

instance : Monad Outcome where
  pure := .done
  bind := bind

/-- The outcome of a computation that never aborts. -/
def ofExcept : Except LintError α → Outcome α
  | .ok value => .done value
  | .error error => .failed error

end Outcome

end ElementLint
