import ElementLint.Span.Basic
import ElementLint.Text.Position

/-!
# Warnings

A warning points at a range of a file and may carry a fix: an edit, which is a list of replacements
of ranges. This module defines these notions, the rendering of a warning as a line, and when two
ranges overlap.
-/

namespace ElementLint

/-- How much a warning matters. -/
inductive Severity where
  | error
  | warning
  | info
  deriving DecidableEq, Repr, Inhabited

/-- The word for a severity in a rendered warning. -/
def Severity.word : Severity → String
  | .error => "error"
  | .warning => "warning"
  | .info => "info"

/-- A range of a file, as positions and as byte offsets. -/
structure SourceRange where
  file : String
  start : Position
  stop : Position
  offsets : Extent
  deriving DecidableEq, Repr, Inhabited

/-- A text to put in the place of a range. -/
structure Replacement where
  range : SourceRange
  text : String
  deriving DecidableEq, Repr, Inhabited

/-- Replacements that belong together. -/
abbrev Edit := List Replacement

/-- A finding of a rule, with an edit that mends it if there is one. -/
structure Warning where
  code : String
  message : String
  severity : Severity
  range : SourceRange
  fix : Option Edit := none
  deriving DecidableEq, Repr, Inhabited

namespace SourceRange

/-- Whether a range holds nothing. -/
def isEmpty (range : SourceRange) : Bool :=
  range.offsets.stop ≤ range.offsets.start

/-- Whether two ranges of one file touch the same text. Two empty ranges do if they are at the same
place. -/
def overlaps (a b : SourceRange) : Bool :=
  if a.file ≠ b.file then false
  else if a.isEmpty && b.isEmpty then a.offsets.start == b.offsets.start
  else decide (a.offsets.start < b.offsets.stop) && decide (b.offsets.start < a.offsets.stop)

/-- The empty range at the start of a file. -/
def atStart (file : String) : SourceRange :=
  ⟨file, ⟨0, 0⟩, ⟨0, 0⟩, ⟨0, 0⟩⟩

end SourceRange

/-- A warning as a line of text; lines and columns count from one. -/
def Warning.render (warning : Warning) : String :=
  let start := warning.range.start
  warning.range.file ++ ":" ++ toString (start.line + 1) ++ ":" ++ toString (start.column + 1) ++
    " " ++ warning.severity.word ++ " [" ++ warning.code ++ "] " ++ warning.message

end ElementLint
