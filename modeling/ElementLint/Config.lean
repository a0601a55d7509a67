import ElementLint.Error
import ElementLint.Glob
import ElementLint.Json.Parser
import ElementLint.Json.Record

/-!
# Configurations

A `Config` says which rules a linter runs and what it leaves out. It is read from JSON, where every
part of it may be left out.
-/

namespace ElementLint

/-- The settings of a linter. -/
structure Config where
  /-- The codes of the rules to run; if there are none, all rules are run. -/
  rules : List String := []
  /-- The codes of the warnings that are dropped. -/
  ignoredWarnings : List String := []
  /-- Patterns for the files that are never linted. -/
  ignoredFiles : List String := []
  /-- A bound on the number of workers. -/
  workers : Option Nat := none
  deriving DecidableEq, Repr, Inhabited

namespace Config

/-- Reads a configuration from a JSON value. -/
def ofJson? (value : Json) : Option Config := do
  let texts := Json.optional [] (Json.listOf? Json.text?)
  match ← value.record? ["rules", "ignore_warnings", "files_to_ignore", "workers"] with
  | [rules, ignoredWarnings, ignoredFiles, workers] =>
    return {
      rules := ← texts rules
      ignoredWarnings := ← texts ignoredWarnings
      ignoredFiles := ← texts ignoredFiles
      workers := ← Json.optional none (Json.nullable Json.nat?) workers }
  | _ => none

/-- Reads a configuration from a JSON text. The message of a failure ends with its colon: the words
of the JSON reader, which would say what is wrong and where, are left out. -/
def parse (text : String) : Except LintError Config :=
  match (Json.parse text).bind ofJson? with
  | some config => .ok config
  | none => .error (.invalidConfig "Failed to parse config JSON: ")

/-- Reads a configuration from the bytes of a file, or from a file that does not exist. -/
def ofFile : Option ByteArray → Except LintError Config
  | none => .error (.unreadable .missing)
  | some bytes =>
    match String.fromUTF8? bytes with
    | none => .error (.unreadable .notText)
    | some text => parse text

/-- The codes of the rules to run, unless all are run. -/
def ruleCodes (config : Config) : Option (List String) :=
  if config.rules.isEmpty then none else some config.rules

/-- Reads the pattern of some files that are never linted. -/
def ignoredPattern (pattern : String) : Except LintError Glob :=
  match Glob.parse pattern with
  | .ok glob => .ok glob
  | .error problem =>
    .error (.invalidConfig ("Invalid pattern '" ++ pattern ++ "': " ++ problem.message))

/-- The patterns of the files that are never linted. -/
def ignoredPatterns (config : Config) : Except LintError (List Glob) :=
  config.ignoredFiles.mapM ignoredPattern

end Config

end ElementLint
