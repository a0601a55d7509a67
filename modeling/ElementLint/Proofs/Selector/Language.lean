import ElementLint.Proofs.Error
import ElementLint.Proofs.Selector.Grammar
import Mathlib.Data.List.TakeWhile

/-!
# The language of selectors

A selector is read if every alternative, without the blanks around it, is a compound selector, and
the first alternative that is none decides how it fails (`Selector.parse_language`): as a combinator
if two compound selectors with that combinator between them start the alternative (`Combines`), and
as unparseable in every other case.
-/

namespace ElementLint.Selector

open Text

/-- A compound selector, a combinator and another compound selector, which is as long as it can be,
start a text. -/
def Combines (text : List Char) (combinator : Combinator) : Prop :=
  ∃ first between second rest left right, text = first ++ between ++ second ++ rest ∧
    IsCompound first left ∧ IsCombinator between combinator ∧ IsCompound second right ∧
    EndsParts rest ∧ EndsWord second rest

variable {text between rest : List Char} {compound : Compound} {combinator : Combinator}

/-! ### Combinators -/

/-- A compound selector starts with an asterisk, with a character of a word or with the sign of a
component. -/
theorem IsCompound.exists_cons (h : IsCompound text compound) :
    ∃ first more, text = first :: more ∧
      (inIdentifier first = true ∨ first ∈ ['*', '.', '#', '[']) := by
  cases h with
  | universal _ => exact ⟨_, _, rfl, .inr (by simp)⟩
  | named hname _ =>
    obtain ⟨first, more, hfirst, hword⟩ := hname.exists_cons
    exact ⟨first, _, by rw [hfirst]; rfl, .inl hword⟩
  | unnamed hne hextends =>
    obtain ⟨first, more, rfl⟩ := List.exists_cons_of_ne_nil hne
    exact ⟨first, more, rfl, .inr (by simp [hextends.of_mem_head? first rfl])⟩

/-- No compound selector starts with a blank or with the sign of a combinator. -/
theorem IsCompound.of_mem_head?_append (h : IsCompound text compound) :
    ∀ c ∈ (text ++ rest).head?, isBlank c = false ∧ c ∉ ['>', '+', '~'] := by
  obtain ⟨first, more, rfl, hfirst⟩ := h.exists_cons
  simp only [List.cons_append, List.head?_cons, Option.mem_some_iff]
  rintro c rfl
  rcases hfirst with hword | hsign
  · refine ⟨isBlank_of_inIdentifier hword, fun hmem => ?_⟩
    rw [inIdentifier_sign (by simp at hmem ⊢; tauto)] at hword
    contradiction
  · simp at hsign
    rcases hsign with rfl | rfl | rfl | rfl <;> simp

/-- A combinator starts with a blank or with its sign. -/
theorem IsCombinator.exists_cons (h : IsCombinator between combinator) :
    ∃ first more, between = first :: more ∧
      (isBlank first = true ∨ first ∈ ['>', '+', '~']) := by
  cases h with
  | descendant hne hblank =>
    obtain ⟨first, more, rfl⟩ := List.exists_cons_of_ne_nil hne
    exact ⟨first, more, rfl, .inl (hblank first List.mem_cons_self)⟩
  | @signed before after sign _ hsign hbefore _ =>
    cases before with
    | nil => exact ⟨sign, after, rfl, .inr (by simp at hsign ⊢; tauto)⟩
    | cons first more => exact ⟨first, _, rfl, .inl (hbefore first List.mem_cons_self)⟩

/-- A combinator ends the components before it. -/
theorem IsCombinator.endsParts (h : IsCombinator between combinator) :
    EndsParts (between ++ rest) := by
  obtain ⟨first, more, rfl, hfirst⟩ := h.exists_cons
  simp only [EndsParts, List.cons_append, List.head?_cons, Option.mem_some_iff]
  rintro c rfl
  rcases hfirst with hblank | hsign
  · refine ⟨?_, ?_, ?_⟩ <;> (rintro rfl; simp at hblank)
  · simp at hsign
    rcases hsign with rfl | rfl | rfl <;> decide

/-- A combinator ends the word before it. -/
theorem IsCombinator.endsWord (h : IsCombinator between combinator) (read : List Char) :
    EndsWord read (between ++ rest) := by
  obtain ⟨first, more, rfl, hfirst⟩ := h.exists_cons
  refine endsWord_of_head? ?_
  simp only [List.cons_append, List.head?_cons, Option.mem_some_iff]
  rintro c rfl
  rcases hfirst with hblank | hsign
  · exact inIdentifier_of_isBlank hblank
  · exact inIdentifier_sign (by simp at hsign ⊢; tauto)

/-- What is read as a combinator stands in the text. -/
theorem exists_isCombinator_of_combinator? (h : combinator? text = some (combinator, rest)) :
    ∃ between, text = between ++ rest ∧ IsCombinator between combinator := by
  obtain ⟨before, hbefore, htext⟩ := exists_blanks_append (rfl : text.dropWhile isBlank = _)
  have hsigned {sign : Char} {more : List Char} (hmore : text.dropWhile isBlank = sign :: more)
      (hsign : (sign, combinator) ∈ [('>', .child), ('+', .adjacent), ('~', .sibling)])
      (hrest : more.dropWhile isBlank = rest) :
      ∃ between, text = between ++ rest ∧ IsCombinator between combinator := by
    obtain ⟨after, hafter, rfl⟩ := exists_blanks_append hrest
    exact ⟨before ++ sign :: after, by simpa [hmore] using htext, .signed hsign hbefore hafter⟩
  rw [combinator?.eq_def] at h
  split at h
  · next hmore =>
    obtain ⟨rfl, hrest⟩ := Prod.mk.inj (Option.some.inj h)
    exact hsigned hmore (by simp) hrest
  · next hmore =>
    obtain ⟨rfl, hrest⟩ := Prod.mk.inj (Option.some.inj h)
    exact hsigned hmore (by simp) hrest
  · next hmore =>
    obtain ⟨rfl, hrest⟩ := Prod.mk.inj (Option.some.inj h)
    exact hsigned hmore (by simp) hrest
  · split at h
    · contradiction
    · next hlength =>
      obtain ⟨rfl, rfl⟩ := Prod.mk.inj (Option.some.inj h)
      refine ⟨before, htext, .descendant ?_ hbefore⟩
      rintro rfl
      exact hlength (congrArg List.length htext.symm)

/-- A combinator that stands before a text which starts with no blank and with no sign of a
combinator is read. -/
theorem combinator?_of_isCombinator (h : IsCombinator between combinator)
    (hrest : ∀ c ∈ rest.head?, isBlank c = false ∧ c ∉ ['>', '+', '~']) :
    combinator? (between ++ rest) = some (combinator, rest) := by
  have hblank : ∀ c ∈ rest.head?, isBlank c = false := fun c hc => (hrest c hc).1
  cases h with
  | descendant hne hbetween =>
    rw [combinator?.eq_def, dropWhile_append_eq hbetween hblank]
    have hsign {sign : Char} (h : sign ∈ ['>', '+', '~']) (more : List Char) :
        rest ≠ sign :: more := by
      rintro rfl
      exact (hrest sign rfl).2 h
    split
    · exact absurd rfl (hsign (by simp) _)
    · exact absurd rfl (hsign (by simp) _)
    · exact absurd rfl (hsign (by simp) _)
    · rw [if_neg]
      simpa using hne
  | @signed before after sign _ hsign hbefore hafter =>
    have hread := dropWhile_append_eq hafter hblank
    simp at hsign
    rcases hsign with ⟨rfl, rfl⟩ | ⟨rfl, rfl⟩ | ⟨rfl, rfl⟩ <;>
      simp [combinator?, dropWhile_blanks hbefore, hread]

/-! ### Alternatives -/

/-- An alternative is read if it is a compound selector. -/
theorem alternative_eq_ok_iff (hlast : ∀ c ∈ text.getLast?, isBlank c = false) :
    alternative text = .ok compound ↔ IsCompound text compound := by
  constructor
  · intro h
    rw [alternative] at h
    split at h
    · contradiction
    · next found rest hread =>
      split at h
      · next hempty =>
        obtain rfl : found = compound := Except.ok.inj h
        obtain ⟨read, rfl, hcompound, -, -⟩ := compound?_eq_some_iff.1 hread
        -- no blanks stand at the end of the text, so that nothing is left
        rcases List.eq_nil_or_concat rest with rfl | ⟨init, c, rfl⟩
        · rwa [List.append_nil]
        · have hblank : isBlank c = true :=
            List.dropWhile_eq_nil_iff.1 (List.isEmpty_iff.1 hempty) c (by simp)
          rw [hlast c (by simp)] at hblank
          contradiction
      · split at h
        · contradiction
        · split at h <;> contradiction
  · intro h
    have hread : compound? (text ++ []) = some (compound, []) :=
      compound?_of_isCompound h (by simp [EndsParts]) (by simp [EndsWord])
    rw [List.append_nil] at hread
    simp [alternative, hread]

/-- An alternative fails with a combinator if compound selectors with it between them start it. -/
theorem alternative_eq_error_combinator_iff :
    alternative text = .error (.combinator combinator) ↔ Combines text combinator := by
  constructor
  · intro h
    rw [alternative] at h
    split at h
    · simp at h
    · next left afterLeft hreadLeft =>
      split at h
      · contradiction
      · split at h
        · simp at h
        · next found afterBetween hreadBetween =>
          split at h
          · next hreadRight =>
            obtain rfl : found = combinator := Problem.combinator.inj (Except.error.inj h)
            obtain ⟨⟨right, rest⟩, hreadRight⟩ := Option.isSome_iff_exists.1 hreadRight
            obtain ⟨first, rfl, hleft, -, -⟩ := compound?_eq_some_iff.1 hreadLeft
            obtain ⟨between, rfl, hbetween⟩ := exists_isCombinator_of_combinator? hreadBetween
            obtain ⟨second, rfl, hright, hparts, hend⟩ := compound?_eq_some_iff.1 hreadRight
            exact ⟨first, between, second, rest, left, right, by simp, hleft, hbetween, hright,
              hparts, hend⟩
          · simp at h
  · rintro ⟨first, between, second, rest, left, right, rfl, hleft, hbetween, hright, hparts, hend⟩
    have hreadLeft : compound? (first ++ (between ++ (second ++ rest))) = _ :=
      compound?_of_isCompound hleft hbetween.endsParts (hbetween.endsWord first)
    have hreadBetween : combinator? (between ++ (second ++ rest)) = _ :=
      combinator?_of_isCombinator hbetween hright.of_mem_head?_append
    have hreadRight := compound?_of_isCompound hright hparts hend
    -- there is more than blanks behind the first compound selector, as the second one starts with
    -- no blank
    have hmore : ((between ++ (second ++ rest)).dropWhile isBlank).isEmpty = false := by
      obtain ⟨c, more, rfl, -⟩ := hright.exists_cons
      refine Bool.eq_false_iff.2 fun hempty => ?_
      have hblank : isBlank c = true :=
        List.dropWhile_eq_nil_iff.1 (List.isEmpty_iff.1 hempty) c (by simp)
      have hstart : ∀ d ∈ (c :: more ++ rest).head?, isBlank d = false ∧ d ∉ ['>', '+', '~'] :=
        hright.of_mem_head?_append
      rw [(hstart c rfl).1] at hblank
      contradiction
    simp [alternative, hreadLeft, hreadBetween, hreadRight, hmore]

/-- An alternative that is no compound selector fails with the combinator of the compound selectors
that start it, and is unparseable if there are none. -/
theorem alternative_eq_error_iff (hlast : ∀ c ∈ text.getLast?, isBlank c = false)
    {problem : Problem} :
    alternative text = .error problem ↔
      (¬ ∃ compound, IsCompound text compound) ∧
        ((∃ combinator, problem = .combinator combinator ∧ Combines text combinator) ∨
          problem = .unparseable ∧ ¬ ∃ combinator, Combines text combinator) := by
  simp only [← alternative_eq_ok_iff hlast, ← alternative_eq_error_combinator_iff]
  cases h : alternative text with
  | ok compound => simp
  | error found =>
    cases found with
    | unparseable => simp [eq_comm]
    | combinator combinator => simp [eq_comm]

/-- Alternatives are read one by one. -/
theorem forall₂_alternative_iff {texts : List (List Char)} {compounds : List Compound}
    (hlast : ∀ text ∈ texts, ∀ c ∈ text.getLast?, isBlank c = false) :
    List.Forall₂ (fun text compound => alternative text = .ok compound) texts compounds ↔
      List.Forall₂ IsCompound texts compounds := by
  induction texts generalizing compounds with
  | nil => simp
  | cons text texts ih =>
    obtain ⟨htext, htexts⟩ := List.forall_mem_cons.1 hlast
    cases compounds with
    | nil => simp
    | cons compound compounds =>
      rw [List.forall₂_cons, List.forall₂_cons, alternative_eq_ok_iff htext, ih htexts]

/-! ### Selectors -/

/-- A selector is cut at every comma, and blanks at the ends of the pieces do not count. It is read
if all pieces are compound selectors, and then these are its alternatives in order. The first piece
that is none decides how it fails. -/
theorem parse_language (selector : String) :
    ∃ pieces texts, CutsAt ',' selector.toList pieces ∧ List.Forall₂ Trims pieces texts ∧
      (∀ compounds, parse selector = .ok ⟨compounds⟩ ↔ List.Forall₂ IsCompound texts compounds) ∧
      ∀ problem, parse selector = .error problem ↔
        ∃ before text after, texts = before ++ text :: after ∧
          (∀ earlier ∈ before, ∃ compound, IsCompound earlier compound) ∧
          (¬ ∃ compound, IsCompound text compound) ∧
          ((∃ combinator, problem = .combinator combinator ∧ Combines text combinator) ∨
            problem = .unparseable ∧ ¬ ∃ combinator, Combines text combinator) := by
  have hcuts := cutsAt_pieces ',' selector.toList
  generalize hpieces : pieces (· == ',') selector.toList = parts at hcuts
  have hlast : ∀ text ∈ parts.map trim, ∀ c ∈ text.getLast?, isBlank c = false := by
    intro text htext
    obtain ⟨part, -, rfl⟩ := List.mem_map.1 htext
    exact (trims_trim part).last
  -- the pieces are read from the front, so the answer is that of `mapM` over them
  have hparse : parse selector = ((parts.map trim).mapM alternative).map Selector.mk := by
    rw [parse, hpieces]
  refine ⟨parts, parts.map trim, hcuts, ?_, fun compounds => ?_, fun problem => ?_⟩
  · rw [List.forall₂_map_right_iff, List.forall₂_same]
    exact fun part _ => trims_trim part
  · rw [← forall₂_alternative_iff hlast, ← Except.mapM_eq_ok_iff, hparse]
    cases (parts.map trim).mapM alternative <;> simp [Except.map]
  · have hmap : parse selector = .error problem ↔
        (parts.map trim).mapM alternative = .error problem := by
      rw [hparse]
      cases (parts.map trim).mapM alternative <;> simp [Except.map]
    rw [hmap, Except.mapM_eq_error_iff]
    refine exists_congr fun before => exists_congr fun text => exists_congr fun after => ?_
    refine and_congr_right fun htexts => ?_
    rw [htexts] at hlast
    rw [alternative_eq_error_iff (hlast text (by simp))]
    refine and_congr_left fun _ => forall₂_congr fun earlier hearlier => ?_
    simp only [alternative_eq_ok_iff (hlast earlier (by simp [hearlier]))]

end ElementLint.Selector
