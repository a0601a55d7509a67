import Mathlib.Data.List.Basic
import Mathlib.Data.List.TakeWhile
import ElementLint.Json.Parser
import ElementLint.Json.Printer

/-!
# Strings and numbers in JSON text

What the printer writes for a string, the parser reads back, whatever the text goes on with; and a
number is read to its end where the text does not go on with more of it.

* `Json.Parser.string?_quote`: every string is read back, a broken one too.
* `Json.Parser.number?_append`: reading a number does not depend on what follows it.
* `Json.Parser.number?_toString`: a natural number is read back by its digits.
-/

namespace ElementLint

namespace Text

theorem digitValue?_of_isDigit {c : Char} (h : c.isDigit) :
    digitValue? c = some (c.toNat - '0'.toNat) := by
  have hc := Char.isDigit_iff_toNat.mp h
  exact if_pos ⟨Char.le_def.mpr hc.1, Char.le_def.mpr hc.2⟩

/-- The digits of a number spell it. -/
theorem ofDigits_toDigits (n : Nat) : ofDigits 10 (Nat.toDigits 10 n) = n := by
  calc ofDigits 10 (Nat.toDigits 10 n)
      = (Nat.toDigits 10 n).foldl (fun n c => 10 * n + (c.toNat - '0'.toNat)) 0 := by
        refine List.foldl_ext _ _ _ fun m c hc => ?_
        have hdigit := Nat.isDigit_of_mem_toDigits (by decide) (by decide) hc
        simp only [digitValue?_of_isDigit hdigit, Option.getD_some, Nat.mul_comm m]
    _ = n := by rw [← Nat.ofDigitChars_eq_foldl, Nat.ofDigitChars_ten_toDigits]

/-- The digits of a positive number do not start with a zero. -/
theorem head?_toDigits_ne (n : Nat) (h : 0 < n) : (Nat.toDigits 10 n).head? ≠ some '0' := by
  induction n using Nat.strongRecOn with
  | ind n ih =>
    rw [Nat.toDigits_eq_if (by decide)]
    split
    case isTrue hsmall =>
      have hdigit : ∀ m < 10, 0 < m → m.digitChar ≠ '0' := by decide
      simpa using hdigit n hsmall h
    case isFalse hlarge =>
      rw [List.head?_append_of_ne_nil _ Nat.toDigits_ne_nil]
      exact ih _ (by omega) (by omega)

end Text

namespace Json.Parser

/-! ## Strings -/

theorem codeUnit?_hexDigit {n : Nat} (h : n < 0x20) :
    codeUnit? '0' '0' (Text.hexDigit (n / 16)) (Text.hexDigit (n % 16)) = some n := by
  revert n
  decide

/-- A character that is not escaped stands for itself. -/
theorem codes?_cons {c : Char} (hquote : c ≠ '"') (hbackslash : c ≠ '\\')
    (hplain : ¬ c.toNat < 0x20) (rest : List Char) :
    codes? (c :: rest) = (codes? rest).map fun (codes, rest) => (c.toNat :: codes, rest) := by
  rw [codes?.eq_def]
  split
  case _ => contradiction
  case _ heq => exact absurd (List.cons.inj heq).1 hquote
  case _ heq => exact absurd (List.cons.inj heq).1 hbackslash
  case _ heq => exact absurd (List.cons.inj heq).1 hbackslash
  case _ heq =>
    obtain ⟨rfl, rfl⟩ := List.cons.inj heq
    rw [if_neg hplain]

/-- An escaped character is read back. -/
theorem codes?_escape (c : Char) (rest : List Char) :
    codes? (escape c ++ rest) =
      (codes? rest).map fun (codes, rest) => (c.toNat :: codes, rest) := by
  unfold escape
  split
  -- the characters that are escaped by a letter or by themselves
  iterate 7 case _ => cases h : codes? rest <;> simp [codes?, escaped?, h]
  case _ hquote hbackslash _ _ _ _ _ =>
    split
    case isTrue hcontrol =>
      cases h : codes? rest <;> simp [codes?, codeUnit?_hexDigit hcontrol, h]
    case isFalse hplain =>
      exact codes?_cons hquote hbackslash hplain rest

theorem codes?_flatMap_escape (text rest : List Char) :
    codes? (text.flatMap escape ++ '"' :: rest) = some (text.map Char.toNat, rest) := by
  induction text with
  | nil => simp [codes?]
  | cons c text ih => simp [codes?_escape, ih]

/-- No character is half of a surrogate pair. -/
theorem not_surrogate (c : Char) : isHigh c.toNat = false ∧ isLow c.toNat = false := by
  have hvalid : c.toNat < 0xD800 ∨ 0xDFFF < c.toNat ∧ c.toNat < 0x110000 := c.valid
  simp only [isHigh, isLow, Bool.and_eq_false_iff, decide_eq_false_iff_not]
  omega

theorem characters?_map_toNat (text : List Char) :
    characters? (text.map Char.toNat) = some text := by
  induction text with
  | nil => rfl
  | cons c text ih =>
    obtain ⟨hhigh, hlow⟩ := not_surrogate c
    cases text with
    | nil => simp [characters?, hhigh, hlow]
    | cons d text =>
      simp only [List.map_cons] at ih ⊢
      simp [characters?, hhigh, hlow, (not_surrogate d).2, ih]

/-- A string is read back after its opening quote, a broken one as broken. -/
theorem string?_quote (text : Option String) (rest : List Char) :
    ∃ body, quote text = '"' :: body ∧ string? (body ++ rest) = some (text, rest) := by
  cases text with
  | none => exact ⟨"\\ud800\"".toList, rfl, rfl⟩
  | some text =>
    refine ⟨_, rfl, ?_⟩
    simp [string?, codes?_flatMap_escape, characters?_map_toNat]

/-! ## Numbers -/

/-- A text that does not go on with more of a number. -/
def Follows (rest : List Char) : Prop :=
  ∀ c ∈ rest.head?, c.isDigit = false ∧ c ≠ '.' ∧ c ≠ 'e' ∧ c ≠ 'E'

theorem follows_nil : Follows [] := by simp [Follows]

theorem follows_cons {c : Char} (h : c.isDigit = false ∧ c ≠ '.' ∧ c ≠ 'e' ∧ c ≠ 'E')
    (rest : List Char) : Follows (c :: rest) := by
  simpa [Follows] using h

variable {input read rest after : List Char}

theorem forall_head?_append {P : Char → Prop} (hinput : ∀ c ∈ input.head?, P c)
    (hrest : ∀ c ∈ rest.head?, P c) : ∀ c ∈ (input ++ rest).head?, P c := by
  cases input with
  | nil => exact hrest
  | cons => exact hinput

theorem digits?_append (hrest : Follows rest) (h : digits? input = some (read, after)) :
    digits? (input ++ rest) = some (read, after ++ rest) := by
  have hspan : (input ++ rest).takeWhile Char.isDigit = input.takeWhile Char.isDigit ∧
      (input ++ rest).dropWhile Char.isDigit = input.dropWhile Char.isDigit ++ rest := by
    clear h
    induction input with
    | nil => cases rest <;> simp_all [Follows]
    | cons c input ih => cases hc : c.isDigit <;> simp [hc, ih]
  simp only [digits?, hspan.1, hspan.2] at h ⊢
  split at h
  case isTrue => contradiction
  case isFalse hread =>
    cases h
    rw [if_neg hread]

theorem map_digits?_append {f : List Char → List Char} (hrest : Follows rest)
    (h : ((digits? input).map fun (digits, rest) => (f digits, rest)) = some (read, after)) :
    ((digits? (input ++ rest)).map fun (digits, rest) => (f digits, rest)) =
      some (read, after ++ rest) := by
  obtain ⟨⟨digits, after'⟩, hdigits, heq⟩ := Option.map_eq_some_iff.mp h
  cases heq
  rw [digits?_append hrest hdigits, Option.map_some]

theorem whole?_cons {c : Char} (h : c ≠ '0') (input : List Char) :
    whole? (c :: input) = digits? (c :: input) := by
  simp [whole?, h]

theorem whole?_append (hrest : Follows rest) (h : whole? input = some (read, after)) :
    whole? (input ++ rest) = some (read, after ++ rest) := by
  cases input with
  | nil => simp [whole?, digits?] at h
  | cons c input =>
    by_cases hzero : c = '0'
    · subst hzero
      have hdigit : (input ++ rest).head?.any Char.isDigit = input.head?.any Char.isDigit := by
        cases input <;> cases rest <;> simp_all [Follows]
      simp only [whole?, List.cons_append, hdigit] at h ⊢
      split at h <;> simp_all
    · rw [List.cons_append, whole?_cons hzero] at *
      exact digits?_append hrest h

theorem fraction?_of_ne (h : ∀ c ∈ input.head?, c ≠ '.') : fraction? input = some ([], input) := by
  unfold fraction?
  split
  case _ => simp at h
  case _ => rfl

theorem fraction?_append (hrest : Follows rest) (h : fraction? input = some (read, after)) :
    fraction? (input ++ rest) = some (read, after ++ rest) := by
  by_cases hpoint : ∀ c ∈ input.head?, c ≠ '.'
  · rw [fraction?_of_ne hpoint] at h
    cases h
    exact fraction?_of_ne (forall_head?_append hpoint fun c hc => (hrest c hc).2.1)
  · obtain ⟨input, rfl⟩ : ∃ digits, input = '.' :: digits := by
      cases input <;> simp_all
    exact map_digits?_append hrest h

theorem exponent?_of_ne (h : ∀ c ∈ input.head?, c ≠ 'e' ∧ c ≠ 'E') :
    exponent? input = some ([], input) := by
  cases input <;> simp_all [exponent?]

theorem exponent?_append (hrest : Follows rest) (h : exponent? input = some (read, after)) :
    exponent? (input ++ rest) = some (read, after ++ rest) := by
  by_cases hmark : ∀ c ∈ input.head?, c ≠ 'e' ∧ c ≠ 'E'
  · rw [exponent?_of_ne hmark] at h
    cases h
    exact exponent?_of_ne (forall_head?_append hmark fun c hc => (hrest c hc).2.2)
  · obtain ⟨e, input, rfl, he⟩ : ∃ e digits, input = e :: digits ∧ (e = 'e' ∨ e = 'E') := by
      cases input <;> grind
    simp only [exponent?, List.cons_append, if_pos he] at h ⊢
    cases input with
    | nil => simp at h
    | cons sign input =>
      simp only [List.cons_append] at h ⊢
      split
      case isTrue hsign =>
        rw [if_pos hsign] at h
        exact map_digits?_append (f := fun digits => e :: sign :: digits) hrest h
      case isFalse hsign =>
        rw [if_neg hsign] at h
        exact map_digits?_append hrest h

/-- Reads a number after its sign. -/
def unsigned? (sign input : List Char) : Option (String × List Char) := do
  let (whole, input) ← whole? input
  let (fraction, input) ← fraction? input
  let (exponent, input) ← exponent? input
  return (String.ofList (sign ++ whole ++ fraction ++ exponent), input)

theorem number?_cons {c : Char} (h : c ≠ '-') (input : List Char) :
    number? (c :: input) = unsigned? [] (c :: input) := by
  simp [number?, unsigned?, h]

theorem unsigned?_append {sign : List Char} {spelling : String} (hrest : Follows rest)
    (h : unsigned? sign input = some (spelling, after)) :
    unsigned? sign (input ++ rest) = some (spelling, after ++ rest) := by
  simp only [unsigned?, Option.bind_eq_bind, Option.bind_eq_some_iff] at h
  obtain ⟨⟨whole, input₁⟩, hwhole, ⟨fraction, input₂⟩, hfraction, ⟨exponent, input₃⟩, hexponent,
    heq⟩ := h
  cases heq
  simp [unsigned?, whole?_append hrest hwhole, fraction?_append hrest hfraction,
    exponent?_append hrest hexponent]

/-- A number is read in the same way whatever follows it. -/
theorem number?_append {spelling : String} (hrest : Follows rest)
    (h : number? input = some (spelling, after)) :
    number? (input ++ rest) = some (spelling, after ++ rest) := by
  cases input with
  | nil => simp [number?, whole?, digits?] at h
  | cons c input =>
    by_cases hminus : c = '-'
    · subst hminus
      change unsigned? ['-'] input = _ at h
      change unsigned? ['-'] (input ++ rest) = _
      exact unsigned?_append hrest h
    · rw [List.cons_append, number?_cons hminus] at *
      exact unsigned?_append hrest h

/-- A number starts with its sign or with a digit, and not as another value does. -/
theorem number?_head {spelling : String} (h : number? input = some (spelling, after)) :
    ∃ c rest, input = c :: rest ∧ isSpace c = false ∧
      c ∉ ['n', 't', 'f', '"', '[', ']', '\x7b'] := by
  cases input with
  | nil => simp [number?, whole?, digits?] at h
  | cons c input =>
    have hc : c = '-' ∨ c.isDigit := by
      refine or_iff_not_imp_left.mpr fun hminus => ?_
      rw [number?_cons hminus] at h
      by_cases hzero : c = '0'
      · simp [hzero]
      · simp only [unsigned?, Option.bind_eq_bind, Option.bind_eq_some_iff, whole?_cons hzero] at h
        obtain ⟨_, hdigits, -⟩ := h
        cases hdigit : c.isDigit
        case true => rfl
        case false => simp [digits?, hdigit] at hdigits
    have hother : ∀ d ∈ [' ', '\n', '\t', '\r', 'n', 't', 'f', '"', '[', ']', '\x7b'],
        ¬ (d = '-' ∨ d.isDigit) := by simp
    replace hother := fun hmem => hother c hmem hc
    refine ⟨c, input, rfl, ?_⟩
    simp_all [isSpace]

/-- A natural number is read back by its digits. -/
theorem number?_toString (n : Nat) : number? (toString n).toList = some (toString n, []) := by
  rcases Nat.eq_zero_or_pos n with rfl | hpos
  · rfl
  rw [Nat.toString_eq_ofList_toDigits, String.toList_ofList]
  have hdigit : ∀ c ∈ Nat.toDigits 10 n, c.isDigit := fun c hc =>
    Nat.isDigit_of_mem_toDigits (by decide) (by decide) hc
  have hhead := Text.head?_toDigits_ne n hpos
  cases hdigits : Nat.toDigits 10 n with
  | nil => exact absurd hdigits Nat.toDigits_ne_nil
  | cons c digits =>
    rw [hdigits] at hdigit hhead
    have hminus : c ≠ '-' := by rintro rfl; simpa using hdigit '-'
    have hzero : c ≠ '0' := by simpa using hhead
    rw [number?_cons hminus]
    simp [unsigned?, whole?_cons hzero, digits?, List.takeWhile_eq_self_iff.mpr hdigit,
      List.dropWhile_eq_nil_iff.mpr hdigit, fraction?, exponent?, String.ofList_cons]

end Json.Parser

end ElementLint
