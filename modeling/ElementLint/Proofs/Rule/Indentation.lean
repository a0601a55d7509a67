import ElementLint.Proofs.Text.Pieces
import ElementLint.Rule.PaperButtonStyle
import Mathlib.Data.List.Infix

/-!
# Indentation

A text that is put on lines of its own gets an indentation in front of each of them
(`PaperButtonStyle.indented_eq_flatMap`). The indentation of a text is that of its first line behind
a line feed that has one (`PaperButtonStyle.indentation_eq_iff`).
-/

namespace ElementLint.PaperButtonStyle

open Text

variable {text before after rest indent : List Char} {c : Char}

/-! ### Lines -/

/-- A text with an indentation after each of its line feeds. -/
def indentLines (indent text : List Char) : List Char :=
  text.flatMap fun c => if c = '\n' then '\n' :: indent else [c]

theorem indentLines_append (first second : List Char) :
    indentLines indent (first ++ second) = indentLines indent first ++ indentLines indent second :=
  List.flatMap_append

theorem indentLines_of_not_mem {text : List Char} (h : '\n' ∉ text) :
    indentLines indent text = text := by
  induction text with
  | nil => rfl
  | cons c text ih =>
    obtain ⟨hc, htext⟩ := not_or.1 (mt List.mem_cons.2 h)
    rw [indentLines, List.flatMap_cons, ← indentLines, ih htext, if_neg (Ne.symm hc)]
    rfl

theorem indentLines_cons (indent text : List Char) :
    indentLines indent ('\n' :: text) = ('\n' :: indent) ++ indentLines indent text :=
  rfl

/-- Each line of an indented text stands behind a line feed and the indentation. -/
theorem indented_eq_flatMap {lines : List (List Char)} (h : CutsAt '\n' text lines) :
    indented indent text = lines.flatMap fun line => '\n' :: (indent ++ line) := by
  obtain ⟨hne, rfl, hlines⟩ := h
  show ('\n' :: indent) ++ indentLines indent _ = _
  induction lines with
  | nil => contradiction
  | cons line more ih =>
    -- the line itself has no line feed; if lines follow it, one stands behind it
    obtain ⟨hline, hmore⟩ := List.forall_mem_cons.1 hlines
    cases more with
    | nil => simp [indentLines_of_not_mem hline]
    | cons next others =>
      rw [List.intercalate_cons_cons, List.append_assoc, List.singleton_append,
        indentLines_append, indentLines_of_not_mem hline, indentLines_cons,
        ih (List.cons_ne_nil _ _) hmore, List.flatMap_cons (x := line)]
      simp

/-! ### The indentation of a text -/

/-- A space or a tab. -/
def isIndent (c : Char) : Bool :=
  c == ' ' || c == '\t'

/-- No line feed of a text is directly followed by a space or a tab. -/
def Flush (text : List Char) : Prop :=
  ∀ c, isIndent c = true → ¬ ['\n', c] <:+: text

/-- The spaces and tabs, as many as there are, behind the first line feed that is directly followed
by such; nothing if there is no such line feed. -/
inductive Indents : List Char → List Char → Prop
  | flush {text : List Char} (h : Flush text) : Indents text []
  | line {before indent after : List Char} (hbefore : Flush before) (hne : indent ≠ [])
      (hindent : ∀ c ∈ indent, isIndent c = true) (hafter : ∀ c ∈ after.head?, isIndent c = false) :
      Indents (before ++ '\n' :: (indent ++ after)) indent

theorem flush_nil : Flush [] := by
  simp [Flush]

theorem flush_cons_iff :
    Flush (c :: rest) ↔ (c = '\n' → ∀ d ∈ rest.head?, isIndent d = false) ∧ Flush rest := by
  have hprefix : ∀ d, ['\n', d] <+: c :: rest ↔ c = '\n' ∧ rest.head? = some d := by
    intro d
    rw [List.cons_prefix_cons, eq_comm]
    cases rest <;> simp [eq_comm]
  simp only [Flush, List.infix_cons_iff, hprefix, not_or, not_and]
  constructor
  · intro h
    refine ⟨fun hc d hd => ?_, fun d hd => (h d hd).2⟩
    rw [← Bool.not_eq_true]
    exact fun hindent => (h d hindent).1 hc hd
  · rintro ⟨hhead, hrest⟩ d hd
    refine ⟨fun hc hmem => ?_, hrest d hd⟩
    rw [hhead hc d hmem] at hd
    contradiction

/-- A flush text before a line feed, or before the end, is passed. -/
theorem indentation_append (h : Flush before) (hrest : ∀ c ∈ rest.head?, isIndent c = false) :
    indentation (before ++ rest) = indentation rest := by
  induction before with
  | nil => rfl
  | cons c before ih =>
    obtain ⟨hhead, hbefore⟩ := flush_cons_iff.1 h
    have hskip : ¬ (c = '\n' ∧ (before ++ rest).takeWhile isIndent ≠ []) := by
      rintro ⟨hc, hne⟩
      -- what stands behind the line feed is the next character of the flush text, or the rest
      refine hne (takeWhile_eq_nil_of_head? fun d hd => ?_)
      cases before with
      | nil => exact hrest d hd
      | cons first more => exact hhead hc d hd
    exact (if_neg hskip).trans (ih hbefore)

theorem indentation_line (hne : indent ≠ []) (hindent : ∀ c ∈ indent, isIndent c = true)
    (hafter : ∀ c ∈ after.head?, isIndent c = false) :
    indentation ('\n' :: (indent ++ after)) = indent := by
  have htake : (indent ++ after).takeWhile isIndent = indent := takeWhile_append_eq hindent hafter
  exact (if_pos ⟨rfl, htake.symm ▸ hne⟩).trans htake

theorem Indents.eq_indentation (h : Indents text indent) : indentation text = indent := by
  cases h with
  | flush h =>
    have hnil : indentation (text ++ []) = indentation [] := indentation_append h (by simp)
    rwa [List.append_nil] at hnil
  | line hbefore hne hindent hafter =>
    rw [indentation_append hbefore (by simp [isIndent]), indentation_line hne hindent hafter]

/-- A character in front of a text does not change what the text is indented by, unless it is a line
feed that makes a line of what stands there. -/
theorem Indents.cons (h : Indents rest indent)
    (hc : c = '\n' → ∀ d ∈ rest.head?, isIndent d = false) : Indents (c :: rest) indent := by
  cases h with
  | flush h => exact .flush (flush_cons_iff.2 ⟨hc, h⟩)
  | @line before _ _ hbefore hne hindent hafter =>
    refine .line (flush_cons_iff.2 ⟨fun hline d hd => ?_, hbefore⟩) hne hindent hafter
    cases before with
    | nil => contradiction
    | cons first more => exact hc hline d hd

theorem indents_indentation (text : List Char) : Indents text (indentation text) := by
  induction text with
  | nil => exact .flush flush_nil
  | cons c rest ih =>
    by_cases hline : c = '\n' ∧ rest.takeWhile isIndent ≠ []
    · have heq : indentation (c :: rest) = rest.takeWhile isIndent := if_pos hline
      rw [heq, hline.1]
      nth_rewrite 1 [← List.takeWhile_append_dropWhile (p := isIndent) (l := rest)]
      exact .line flush_nil hline.2 (fun _ => of_mem_takeWhile) fun _ => of_mem_head?_dropWhile
    · have heq : indentation (c :: rest) = indentation rest := if_neg hline
      rw [heq]
      refine ih.cons fun hc d hd => ?_
      -- otherwise the line would be indented
      rw [← Bool.not_eq_true]
      intro hd'
      cases rest with
      | nil => contradiction
      | cons first more =>
        obtain rfl := Option.some.inj hd
        exact hline ⟨hc, by simp [hd']⟩

/-- What a text is indented by. -/
theorem indentation_eq_iff : indentation text = indent ↔ Indents text indent :=
  ⟨fun h => h ▸ indents_indentation text, Indents.eq_indentation⟩

end ElementLint.PaperButtonStyle
