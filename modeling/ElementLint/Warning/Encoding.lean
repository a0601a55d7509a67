import ElementLint.Json.Record
import ElementLint.Warning.Basic

/-!
# Warnings in JSON

`Warning.toJson` writes a warning as a JSON value and `Warning.ofJson?` reads one. A warning without
a fix has no field for it.
-/

namespace ElementLint

/-- A severity as a JSON value. -/
def Severity.toJson : Severity → Json
  | .error => .text "Error"
  | .warning => .text "Warning"
  | .info => .text "Info"

/-- The severity of a word. -/
def Severity.ofWord? (word : String) : Option Severity :=
  match word with
  | "Error" => some .error
  | "Warning" => some .warning
  | "Info" => some .info
  | _ => none

/-- Reads a severity: a word, or an object with the word as its only key and without a value. -/
def Severity.ofJson? : Json → Option Severity
  | .string (some word) => Severity.ofWord? word
  | .object [(some word, .null)] => Severity.ofWord? word
  | _ => none

/-- A position as a JSON value. -/
def Position.toJson (position : Position) : Json :=
  .ofFields [("line", .nat position.line), ("column", .nat position.column)]

/-- Reads a position. -/
def Position.ofJson? (value : Json) : Option Position := do
  match ← value.record? ["line", "column"] with
  | [line, column] => return ⟨← Json.required Json.nat? line, ← Json.required Json.nat? column⟩
  | _ => none

/-- A stretch of a text as a JSON value. -/
def Extent.toJson (extent : Extent) : Json :=
  .ofFields [("start", .nat extent.start), ("end", .nat extent.stop)]

/-- Reads a stretch of a text, whose object has no other keys. -/
def Extent.ofJson? (value : Json) : Option Extent := do
  guard (value.keys.all (fun key => key == some "start" || key == some "end"))
  match ← value.record? ["start", "end"] with
  | [start, stop] => return ⟨← Json.required Json.nat? start, ← Json.required Json.nat? stop⟩
  | _ => none

/-- A range as a JSON value. -/
def SourceRange.toJson (range : SourceRange) : Json :=
  .ofFields [("file", .text range.file), ("start", range.start.toJson), ("end", range.stop.toJson),
    ("offsets", range.offsets.toJson)]

/-- Reads a range. -/
def SourceRange.ofJson? (value : Json) : Option SourceRange := do
  match ← value.record? ["file", "start", "end", "offsets"] with
  | [file, start, stop, offsets] =>
    return {
      file := ← Json.required Json.text? file
      start := ← Json.required Position.ofJson? start
      stop := ← Json.required Position.ofJson? stop
      offsets := ← Json.required Extent.ofJson? offsets }
  | _ => none

/-- A replacement as a JSON value. -/
def Replacement.toJson (replacement : Replacement) : Json :=
  .ofFields [("range", replacement.range.toJson), ("replacement_text", .text replacement.text)]

/-- Reads a replacement. -/
def Replacement.ofJson? (value : Json) : Option Replacement := do
  match ← value.record? ["range", "replacement_text"] with
  | [range, text] =>
    return ⟨← Json.required SourceRange.ofJson? range, ← Json.required Json.text? text⟩
  | _ => none

/-- An edit as a JSON value. -/
def Edit.toJson (edit : Edit) : Json :=
  .array (edit.map Replacement.toJson)

/-- Reads an edit. -/
def Edit.ofJson? (value : Json) : Option Edit :=
  Json.listOf? Replacement.ofJson? value

namespace Warning

/-- A warning as a JSON value. -/
def toJson (warning : Warning) : Json :=
  .ofFields ([("code", .text warning.code), ("message", .text warning.message),
    ("severity", warning.severity.toJson), ("source_range", warning.range.toJson)] ++
    (warning.fix.map fun fix => ("fix", Edit.toJson fix)).toList)

/-- Reads a warning. A fix that is null or left out is none. -/
def ofJson? (value : Json) : Option Warning := do
  match ← value.record? ["code", "message", "severity", "source_range", "fix"] with
  | [code, message, severity, range, fix] =>
    return {
      code := ← Json.required Json.text? code
      message := ← Json.required Json.text? message
      severity := ← Json.required Severity.ofJson? severity
      range := ← Json.required SourceRange.ofJson? range
      fix := ← Json.optional none (Json.nullable Edit.ofJson?) fix }
  | _ => none

end Warning

end ElementLint
