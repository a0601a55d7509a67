import ElementLint.Loader.Basic
import ElementLint.Warning.Basic

/-!
# Applying edits

`applyEdits` applies edits to the files that a loader serves. First the edits are accepted or
refused in their order: an edit is refused if one of its replacements overlaps another one of its
own or one of an edit accepted before it. Then the replacements of each file are made one after the
other, those that start later first, so that the places of the others stay valid.

A replacement is checked against the text as it was loaded, and its places are found in the text as
it is then (`Text.splice?`).
-/

namespace ElementLint

/-- Replaces what lies between the characters in which two byte offsets fall. There is no such text
if an offset is past the end, or if the offsets are in the wrong order. -/
def Text.splice? (text : List Char) (offsets : Extent) (inserted : List Char) :
    Option (List Char) :=
  let start := charIndex text offsets.start
  let stop := charIndex text offsets.stop
  if byteSize text < offsets.start ∨ byteSize text < offsets.stop ∨ stop < start then none
  else some (text.take start ++ inserted ++ text.drop stop)

/-- The acceptance of edits: those accepted and those refused so far, both in their order. -/
structure EditSelection where
  accepted : List Edit
  refused : List Edit
  deriving DecidableEq, Repr, Inhabited

namespace EditSelection

/-- No edits. -/
def empty : EditSelection := ⟨[], []⟩

/-- The replacements of the accepted edits. -/
def replacements (selection : EditSelection) : List Replacement :=
  selection.accepted.flatten

/-- Whether no two of the replacements of an edit overlap, nor one of them and one of some
others. -/
def isCompatible (others : List Replacement) : Edit → Bool
  | [] => true
  | replacement :: rest =>
    !others.any (·.range.overlaps replacement.range) &&
      !rest.any (·.range.overlaps replacement.range) && isCompatible others rest

/-- Accepts or refuses an edit. -/
def add (selection : EditSelection) (edit : Edit) : EditSelection :=
  if isCompatible selection.replacements edit then
    { selection with accepted := selection.accepted ++ [edit] }
  else { selection with refused := selection.refused ++ [edit] }

/-- Accepts or refuses some edits in their order. -/
def ofEdits (edits : List Edit) : EditSelection :=
  edits.foldl add empty

/-- The files that the accepted edits change, in the order of their first replacements. -/
def files (selection : EditSelection) : List String :=
  (selection.replacements.map (·.range.file)).eraseDups

/-- The replacements of a file in the order in which they are made. -/
def replacementsOf (selection : EditSelection) (file : String) : List Replacement :=
  (selection.replacements.filter (·.range.file == file)).mergeSort
    (fun a b => decide (b.range.offsets.start ≤ a.range.offsets.start))

end EditSelection

/-- The error for a replacement that does not fit the text of its file. -/
def Replacement.misfit (replacement : Replacement) (loaded : List Char) : LintError :=
  let offsets := replacement.range.offsets
  .invalidEdit ("range " ++ toString offsets.start ++ ".." ++ toString offsets.stop ++
    " does not fit " ++ replacement.range.file ++ " (" ++ toString (Text.byteSize loaded) ++
    " bytes)")

/-- Makes a replacement in a text that may have changed since it was loaded. -/
def Replacement.apply (replacement : Replacement) (loaded text : List Char) :
    Outcome (List Char) :=
  if replacement.range.offsets.fits loaded then
    match Text.splice? text replacement.range.offsets replacement.text.toList with
    | some changed => .done changed
    | none => .aborted none
  else .failed (replacement.misfit loaded)

/-- Makes some replacements one after the other. -/
def applyReplacements (loaded : List Char) :
    List Replacement → List Char → Outcome (List Char)
  | [], text => .done text
  | replacement :: rest, text =>
    (replacement.apply loaded text).bind (applyReplacements loaded rest)

/-- The result of applying edits. -/
structure EditResult where
  /-- The edits that were applied, in their order. -/
  applied : List Edit
  /-- The edits that were skipped, in their order. -/
  incompatible : List Edit
  /-- The new texts of the files. -/
  files : FileTable
  deriving DecidableEq, Repr, Inhabited

/-- The new text of a file. -/
def EditSelection.editFile (selection : EditSelection) (loader : Loader) (file : String) :
    Outcome String :=
  (loader.load file).bind fun text =>
    (applyReplacements text.toList (selection.replacementsOf file) text.toList).bind fun changed =>
      .done (String.ofList changed)

/-- The new texts of some files, which are visited in the given order. -/
def EditSelection.editFiles (selection : EditSelection) (loader : Loader) :
    List String → FileTable → Outcome FileTable
  | [], table => .done table
  | file :: rest, table =>
    (selection.editFile loader file).bind fun text =>
      selection.editFiles loader rest (table.insert file text)

/-- Applies edits, visiting the files in an order that is computed from the accepted edits. -/
def applyEditsIn (order : EditSelection → List String) (edits : List Edit) (loader : Loader) :
    Outcome EditResult :=
  -- no file is read before all edits are accepted or refused
  let selection := EditSelection.ofEdits edits
  (selection.editFiles loader (order selection) .empty).bind fun files =>
    .done ⟨selection.accepted, selection.refused, files⟩

/-- Applies edits. -/
def applyEdits (edits : List Edit) (loader : Loader) : Outcome EditResult :=
  applyEditsIn EditSelection.files edits loader

end ElementLint
