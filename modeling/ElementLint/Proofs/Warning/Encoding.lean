import ElementLint.Warning.Encoding
import ElementLint.Proofs.Json.Reordering

/-!
# Warnings and back from JSON

A warning is read back from the text it is written as, and also from every text that differs only in
the order of the keys of its objects. The numbers of a warning must fit in 64 bits: those of the
program do, and the reader takes no others.

## Main definitions

* `Warning.numbers`: the lines, columns and offsets in a warning and in its fix.

## Main results

* `Warning.ofJson?_toJson`: a warning is read back from its JSON value.
* `Warning.stable_ofJson?`: what is read does not depend on the order of the keys.
* `Warning.parse_render_toJson`: both for the text of the value.
-/

namespace ElementLint

open Json

/-! ## Numbers -/

/-- The numbers in a range. -/
def SourceRange.numbers (range : SourceRange) : List Nat :=
  [range.start.line, range.start.column, range.stop.line, range.stop.column, range.offsets.start,
    range.offsets.stop]

/-- The numbers in an edit. -/
def Edit.numbers (edit : Edit) : List Nat :=
  edit.flatMap (·.range.numbers)

/-- The numbers in a warning and in its fix. -/
def Warning.numbers (warning : Warning) : List Nat :=
  warning.range.numbers ++ (warning.fix.map Edit.numbers).getD []

theorem Json.nat?_nat {n : Nat} (h : n < UInt64.size) : (Json.nat n).nat? = some n := by
  have hall : (Nat.toDigits 10 n).all Char.isDigit := List.all_eq_true.mpr fun c hc =>
    Nat.isDigit_of_mem_toDigits (by decide) (by decide) hc
  simp [Json.nat, nat?, hall, Text.ofDigits_toDigits, h]

/-! ## Reading what was written -/

theorem Severity.ofJson?_toJson (severity : Severity) :
    Severity.ofJson? severity.toJson = some severity := by
  cases severity <;> rfl

theorem Position.ofJson?_toJson {position : Position} (hline : position.line < UInt64.size)
    (hcolumn : position.column < UInt64.size) :
    Position.ofJson? position.toJson = some position := by
  simp [Position.ofJson?, Position.toJson, record?, ofFields, required, nat?_nat hline,
    nat?_nat hcolumn]

theorem Extent.ofJson?_toJson {extent : Extent} (hstart : extent.start < UInt64.size)
    (hstop : extent.stop < UInt64.size) : Extent.ofJson? extent.toJson = some extent := by
  simp [Extent.ofJson?, Extent.toJson, keys, record?, ofFields, required, nat?_nat hstart,
    nat?_nat hstop]

theorem SourceRange.ofJson?_toJson {range : SourceRange}
    (h : ∀ n ∈ range.numbers, n < UInt64.size) :
    SourceRange.ofJson? range.toJson = some range := by
  simp only [SourceRange.numbers, List.forall_mem_cons] at h
  obtain ⟨hline, hcolumn, hline', hcolumn', hstart, hstop, -⟩ := h
  simp [SourceRange.ofJson?, SourceRange.toJson, record?, ofFields, required, Json.text, text?,
    Position.ofJson?_toJson hline hcolumn, Position.ofJson?_toJson hline' hcolumn',
    Extent.ofJson?_toJson hstart hstop]

theorem Replacement.ofJson?_toJson {replacement : Replacement}
    (h : ∀ n ∈ replacement.range.numbers, n < UInt64.size) :
    Replacement.ofJson? replacement.toJson = some replacement := by
  simp [Replacement.ofJson?, Replacement.toJson, record?, ofFields, required, Json.text, text?,
    SourceRange.ofJson?_toJson h]

theorem Edit.ofJson?_toJson {edit : Edit} (h : ∀ n ∈ Edit.numbers edit, n < UInt64.size) :
    Edit.ofJson? (Edit.toJson edit) = some edit := by
  simp only [Edit.ofJson?, Edit.toJson, listOf?, Json.items?, Option.bind_some]
  induction edit with
  | nil => rfl
  | cons replacement edit ih =>
    rw [Edit.numbers, List.flatMap_cons, List.forall_mem_append] at h
    simp [Replacement.ofJson?_toJson h.1, ih h.2]

theorem Warning.ofJson?_toJson {warning : Warning}
    (h : ∀ n ∈ warning.numbers, n < UInt64.size) :
    Warning.ofJson? warning.toJson = some warning := by
  obtain ⟨code, message, severity, range, fix⟩ := warning
  rw [Warning.numbers, List.forall_mem_append] at h
  cases fix with
  | none =>
    simp [Warning.ofJson?, Warning.toJson, record?, ofFields, required, Json.optional, Json.text,
      text?, Severity.ofJson?_toJson, SourceRange.ofJson?_toJson h.1]
  | some fix =>
    have hfix : nullable Edit.ofJson? (Edit.toJson fix) = some (some fix) :=
      calc nullable Edit.ofJson? (Edit.toJson fix)
          = (Edit.ofJson? (Edit.toJson fix)).map some := rfl
        _ = some (some fix) := by rw [Edit.ofJson?_toJson h.2, Option.map_some]
    simp [Warning.ofJson?, Warning.toJson, record?, ofFields, required, Json.optional, Json.text,
      text?, Severity.ofJson?_toJson, SourceRange.ofJson?_toJson h.1, hfix]

/-! ## The order of the keys -/

theorem Severity.stable_ofJson? : Stable Severity.ofJson? :=
  stable_of_reorders fun _ _ h => by
    cases h with
    | @fields fields fields' h =>
      match fields with
      | [] => rw [List.nil_perm.mp h]
      | [field] => rw [List.singleton_perm.mp h]
      | _ :: _ :: _ =>
        match fields', h.length_eq with
        | _ :: _ :: _, _ => simp [Severity.ofJson?]
    -- a key with an object or an array as its value names no severity
    | field before key after h =>
      cases before <;> cases after <;> cases h <;> simp [Severity.ofJson?]
    | item => rfl

theorem Position.stable_ofJson? : Stable Position.ofJson? :=
  stable_record ["line", "column"] fun _ _ h => by
    rcases h with _ | ⟨hline, _ | ⟨hcolumn, _ | _⟩⟩ <;> try rfl
    simp only [required_congr stable_nat? hline, required_congr stable_nat? hcolumn]

theorem Extent.stable_ofJson? : Stable Extent.ofJson? := by
  intro value value' h
  refine congrArg₂ (fun (known : Bool) (extent : Option Extent) =>
    (guard known : Option Unit).bind fun _ => extent) (stable_all_keys _ h)
    (stable_record ["start", "end"] (fun _ _ h => ?_) h)
  rcases h with _ | ⟨hstart, _ | ⟨hstop, _ | _⟩⟩ <;> try rfl
  simp only [required_congr stable_nat? hstart, required_congr stable_nat? hstop]

theorem SourceRange.stable_ofJson? : Stable SourceRange.ofJson? :=
  stable_record ["file", "start", "end", "offsets"] fun _ _ h => by
    rcases h with _ | ⟨hfile, _ | ⟨hstart, _ | ⟨hstop, _ | ⟨hoffsets, _ | _⟩⟩⟩⟩ <;> try rfl
    simp only [required_congr stable_text? hfile, required_congr Position.stable_ofJson? hstart,
      required_congr Position.stable_ofJson? hstop, required_congr Extent.stable_ofJson? hoffsets]

theorem Replacement.stable_ofJson? : Stable Replacement.ofJson? :=
  stable_record ["range", "replacement_text"] fun _ _ h => by
    rcases h with _ | ⟨hrange, _ | ⟨htext, _ | _⟩⟩ <;> try rfl
    simp only [required_congr SourceRange.stable_ofJson? hrange, required_congr stable_text? htext]

theorem Edit.stable_ofJson? : Stable Edit.ofJson? := stable_listOf? Replacement.stable_ofJson?

theorem Warning.stable_ofJson? : Stable Warning.ofJson? :=
  stable_record ["code", "message", "severity", "source_range", "fix"] fun _ _ h => by
    rcases h with
      _ | ⟨hcode, _ | ⟨hmessage, _ | ⟨hseverity, _ | ⟨hrange, _ | ⟨hfix, _ | _⟩⟩⟩⟩⟩ <;> try rfl
    simp only [required_congr stable_text? hcode, required_congr stable_text? hmessage,
      required_congr Severity.stable_ofJson? hseverity,
      required_congr SourceRange.stable_ofJson? hrange,
      optional_congr (stable_nullable Edit.stable_ofJson?) none hfix]

/-! ## Texts -/

theorem Position.spelled_toJson (position : Position) : position.toJson.Spelled :=
  spelled_ofFields (by simp [spelled_nat])

theorem Extent.spelled_toJson (extent : Extent) : extent.toJson.Spelled :=
  spelled_ofFields (by simp [spelled_nat])

theorem SourceRange.spelled_toJson (range : SourceRange) : range.toJson.Spelled :=
  spelled_ofFields (by simp [spelled_text, Position.spelled_toJson, Extent.spelled_toJson])

theorem Edit.spelled_toJson (edit : Edit) : (Edit.toJson edit).Spelled := by
  refine .array (List.forall_mem_map.mpr fun replacement _ => ?_)
  exact spelled_ofFields (by simp [spelled_text, SourceRange.spelled_toJson])

theorem Warning.spelled_toJson (warning : Warning) : warning.toJson.Spelled := by
  have hseverity : warning.severity.toJson.Spelled := by
    cases warning.severity <;> exact spelled_text _
  refine spelled_ofFields ?_
  cases warning.fix <;>
    simp [spelled_text, hseverity, SourceRange.spelled_toJson, Edit.spelled_toJson]

theorem Warning.mem_keys_toJson (warning : Warning) :
    some "fix" ∉ warning.toJson.keys ↔ warning.fix = none := by
  cases h : warning.fix <;> simp [Warning.toJson, ofFields, keys, h]

/-- A warning whose numbers fit in 64 bits is read back from its text, where the key for the fix is
missing exactly if there is no fix, and from every text with the keys in another order. -/
theorem Warning.parse_render_toJson (warning : Warning)
    (h : ∀ n ∈ warning.numbers, n < UInt64.size) :
    (Json.parse warning.toJson.render).bind Warning.ofJson? = some warning ∧
      (∀ value, Json.parse warning.toJson.render = some value →
        (some "fix" ∉ value.keys ↔ warning.fix = none)) ∧
      ∀ value, warning.toJson.Reordered value →
        (Json.parse value.render).bind Warning.ofJson? = some warning := by
  have hreordered : ∀ value, warning.toJson.Reordered value →
      (Json.parse value.render).bind Warning.ofJson? = some warning := fun value hvalue =>
    calc (Json.parse value.render).bind Warning.ofJson?
        = Warning.ofJson? value := by
          rw [parse_render (hvalue.spelled warning.spelled_toJson), Option.bind_some]
      _ = Warning.ofJson? warning.toJson := (Warning.stable_ofJson? hvalue).symm
      _ = some warning := Warning.ofJson?_toJson h
  refine ⟨hreordered _ (.refl _), fun value hparse => ?_, hreordered⟩
  rw [parse_render warning.spelled_toJson] at hparse
  cases hparse
  exact warning.mem_keys_toJson

/-- A warning with characters that JSON text escapes, one beyond the first plane, the greatest
offset and a fix without replacements. -/
def Warning.quoted : Warning where
  code := "a\"b\\c"
  message := "\x01\t/😀"
  severity := .info
  range := ⟨"a.html", ⟨0, 0⟩, ⟨3, 1⟩, ⟨0, 18446744073709551615⟩⟩
  fix := some []

/-- The quoted warning with its keys from the last to the first. -/
theorem Warning.parse_render_toJson_quoted :
    (∀ n ∈ quoted.numbers, n < UInt64.size) ∧
      (Json.parse (Json.ofFields [("fix", .array []), ("source_range", quoted.range.toJson),
        ("severity", .text "Info"), ("message", .text quoted.message),
        ("code", .text quoted.code)]).render).bind Warning.ofJson? = some quoted := by
  have hfits : ∀ n ∈ quoted.numbers, n < UInt64.size := by decide
  obtain ⟨-, -, hreordered⟩ := Warning.parse_render_toJson quoted hfits
  exact ⟨hfits, hreordered _ (Reorders.reordered (.fields (List.reverse_perm _).symm))⟩

end ElementLint
