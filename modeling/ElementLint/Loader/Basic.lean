import ElementLint.Document.Basic
import ElementLint.Error
import ElementLint.Loader.FileTable

/-!
# Loaders

A `Loader` serves the files of a package by their names. This module defines the loader that serves
a table of files and the one that lays such a table over another loader.
-/

namespace ElementLint

/-- A source of files. -/
structure Loader where
  /-- The text of a file. -/
  load : String → Outcome String
  /-- The names of the files with markup. -/
  list : Except LintError (List String)

namespace Loader

/-- Whether a name is that of a file with markup. -/
def isMarkupName (name : String) : Bool :=
  ".html".toList.isSuffixOf name.toList

/-- The loader that serves a table of files. -/
def ofTable (files : FileTable) : Loader where
  load name :=
    match files.get? name with
    | some text => .done text
    | none => .failed (.notLoaded name .unknownName)
  list := .ok (files.names.filter isMarkupName)

/-- Some names in their order, each once. -/
def sortedNames (names : List String) : List String :=
  (names.mergeSort (fun a b => decide (a ≤ b))).eraseReps

/-- The loader that serves the files of a table, and those of another loader where the table has
none. It lists the files of both. -/
def overlay (files : FileTable) (fallback : Loader) : Loader where
  load name :=
    match files.get? name with
    | some text => .done text
    | none => fallback.load name
  list := fallback.list.map fun names => sortedNames (names ++ files.names)

/-- Loads and parses a file. -/
def parse (loader : Loader) (name : String) : Outcome Document :=
  (loader.load name).bind fun text => .done (.parse name text)

end Loader

end ElementLint
