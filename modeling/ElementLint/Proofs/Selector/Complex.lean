import ElementLint.Proofs.Selector.Language

/-!
# Complex selectors

Compound selectors with combinators between them make up a complex selector (`IsComplex`). The
parser knows no such selector: behind a compound selector it reads one combinator with another
compound selector behind it (`GoesOn`), and it blames the combinator without a look at what follows.

A text that starts with a complex selector starts with a longest one, which may leave something over
(`LeavesOver`). So an alternative is blamed on a combinator if a complex selector of two or more
compound selectors starts it, and it is such a selector as a whole if and only if nothing is left
over (`Selector.parse_complex`).
-/

namespace ElementLint.Selector

open Text

/-! ### Steps -/

/-- What follows a compound selector in a complex one: combinators with a compound selector behind
each. -/
inductive IsContinuation : List Char → List (Combinator × Compound) → Prop
  | done : IsContinuation [] []
  | step {between next more : List Char} {combinator : Combinator} {compound : Compound}
      {steps : List (Combinator × Compound)} :
      IsCombinator between combinator → IsCompound next compound → IsContinuation more steps →
      IsContinuation (between ++ next ++ more) ((combinator, compound) :: steps)

/-- A complex selector: a compound selector and what it is combined with. -/
inductive IsComplex : List Char → Compound → List (Combinator × Compound) → Prop
  | intro {first more : List Char} {compound : Compound} {steps : List (Combinator × Compound)} :
      IsCompound first compound → IsContinuation more steps →
      IsComplex (first ++ more) compound steps

/-- A complex selector of two or more compound selectors, of which a combinator joins the first
two. -/
def IsCombination (text : List Char) (combinator : Combinator) : Prop :=
  ∃ first second steps, IsComplex text first ((combinator, second) :: steps)

/-- A combinator and a compound selector, which is as long as it can be, start a text. -/
def GoesOn (text : List Char) (combinator : Combinator) (compound : Compound) (rest : List Char) :
    Prop :=
  ∃ between next, text = between ++ next ++ rest ∧ IsCombinator between combinator ∧
    IsCompound next compound ∧ EndsParts rest ∧ EndsWord next rest

/-- A complex selector goes no further: nothing in the rest belongs to its last compound selector,
and no combinator with another one follows. -/
structure LeavesOver (read rest : List Char) : Prop where
  parts : EndsParts rest
  word : EndsWord read rest
  stops : ∀ combinator compound more, ¬ GoesOn rest combinator compound more

variable {text read between next more rest : List Char} {compound first : Compound}
  {combinator : Combinator} {steps : List (Combinator × Compound)}

theorem IsCompound.ne_nil (h : IsCompound text compound) : text ≠ [] := by
  obtain ⟨_, _, rfl, -⟩ := h.exists_cons
  exact List.cons_ne_nil _ _

/-- A text is a compound selector if it is read as one and nothing is left. -/
theorem isCompound_of_compound? (h : compound? text = some (compound, [])) :
    IsCompound text compound := by
  obtain ⟨read, rfl, hcompound, -⟩ := compound?_eq_some_iff.1 h
  rwa [List.append_nil]

theorem endsParts_nil : EndsParts [] := by
  simp [EndsParts]

theorem endsWord_nil (read : List Char) : EndsWord read [] := by
  simp [EndsWord]

/-- What is left over behind a step does not depend on what stands before it. -/
theorem leavesOver_step_iff (hnext : IsCompound next compound) :
    LeavesOver (read ++ (between ++ next ++ more)) rest ↔ LeavesOver (next ++ more) rest := by
  have hne : next ++ more ≠ [] := List.append_ne_nil_of_left_ne_nil hnext.ne_nil more
  have hword :
      EndsWord (read ++ (between ++ next ++ more)) rest ↔ EndsWord (next ++ more) rest := by
    rw [List.append_assoc between, ← List.append_assoc read]
    simp only [EndsWord, List.getLast?_append, List.getLast?_eq_some_getLast hne, Option.some_or]
  exact ⟨fun h => ⟨h.parts, hword.1 h.word, h.stops⟩, fun h => ⟨h.parts, hword.2 h.word, h.stops⟩⟩

/-- A continuation ends the components before it. -/
theorem IsContinuation.endsParts (h : IsContinuation more steps) (hrest : EndsParts rest) :
    EndsParts (more ++ rest) := by
  cases h with
  | done => exact hrest
  | step hbetween _ _ =>
    rw [List.append_assoc, List.append_assoc]
    exact hbetween.endsParts

/-- A continuation ends the word before it. -/
theorem IsContinuation.endsWord (h : IsContinuation more steps)
    (hend : EndsWord (read ++ more) rest) : EndsWord read (more ++ rest) := by
  cases h with
  | done => rwa [List.append_nil] at hend
  | step hbetween _ _ =>
    rw [List.append_assoc, List.append_assoc]
    exact hbetween.endsWord read

/-- A text goes on with the step that is read at its start. -/
theorem goesOn_iff :
    GoesOn text combinator compound rest ↔
      ∃ middle, combinator? text = some (combinator, middle) ∧
        compound? middle = some (compound, rest) := by
  constructor
  · rintro ⟨between, next, rfl, hbetween, hnext, hparts, hend⟩
    rw [List.append_assoc]
    exact ⟨next ++ rest, combinator?_of_isCombinator hbetween hnext.of_mem_head?_append,
      compound?_of_isCompound hnext hparts hend⟩
  · rintro ⟨middle, hreadBetween, hreadNext⟩
    obtain ⟨between, rfl, hbetween⟩ := exists_isCombinator_of_combinator? hreadBetween
    obtain ⟨next, rfl, hnext, hparts, hend⟩ := compound?_eq_some_iff.1 hreadNext
    exact ⟨between, next, (List.append_assoc ..).symm, hbetween, hnext, hparts, hend⟩

/-- There is one way at most for a text to go on. -/
theorem GoesOn.rest_eq {combinator' : Combinator} {compound' : Compound} {rest' : List Char}
    (h : GoesOn text combinator compound rest) (h' : GoesOn text combinator' compound' rest') :
    rest = rest' := by
  obtain ⟨middle, hbetween, hnext⟩ := goesOn_iff.1 h
  obtain ⟨middle', hbetween', hnext'⟩ := goesOn_iff.1 h'
  obtain ⟨-, rfl⟩ := Prod.mk.inj (Option.some.inj (hbetween.symm.trans hbetween'))
  exact (Prod.mk.inj (Option.some.inj (hnext.symm.trans hnext'))).2

theorem GoesOn.length_lt (h : GoesOn text combinator compound rest) :
    rest.length < text.length := by
  obtain ⟨between, next, rfl, hbetween, -⟩ := h
  obtain ⟨_, _, rfl, -⟩ := hbetween.exists_cons
  simp only [List.cons_append, List.length_cons, List.length_append]
  omega

/-- A text goes on with the first step of a continuation, wherever that ends. -/
theorem IsContinuation.goesOn_append (hmore : IsContinuation more steps)
    (hbetween : IsCombinator between combinator) (hnext : IsCompound next compound)
    (hparts : EndsParts rest) (hend : EndsWord (next ++ more) rest) :
    GoesOn (between ++ next ++ more ++ rest) combinator compound (more ++ rest) :=
  ⟨between, next, List.append_assoc .., hbetween, hnext, hmore.endsParts hparts,
    hmore.endsWord hend⟩

/-- A text goes on with the first step of a continuation. -/
theorem IsContinuation.goesOn (hmore : IsContinuation more steps)
    (hbetween : IsCombinator between combinator) (hnext : IsCompound next compound) :
    GoesOn (between ++ next ++ more) combinator compound more := by
  simpa using hmore.goesOn_append hbetween hnext endsParts_nil (endsWord_nil _)

/-! ### What is left over -/

/-- Behind a compound selector stands a longest continuation. -/
theorem exists_isContinuation (hparts : EndsParts text) (hend : EndsWord read text) :
    ∃ more steps rest, text = more ++ rest ∧ IsContinuation more steps ∧
      LeavesOver (read ++ more) rest := by
  -- by induction on the length, since every step leaves a shorter text behind
  induction hlength : text.length using Nat.strong_induction_on generalizing text read with
  | h length ih =>
    by_cases hstops : ∀ combinator compound more, ¬ GoesOn text combinator compound more
    · exact ⟨[], [], text, rfl, .done, ⟨hparts, by rwa [List.append_nil], hstops⟩⟩
    · simp only [not_forall, not_not] at hstops
      obtain ⟨combinator, compound, after, hgoes⟩ := hstops
      have hlt := hgoes.length_lt
      obtain ⟨between, next, rfl, hbetween, hnext, hafter, hword⟩ := hgoes
      obtain ⟨more, steps, rest, rfl, hmore, hleaves⟩ := ih _ (hlength ▸ hlt) hafter hword rfl
      exact ⟨between ++ next ++ more, _, rest, by simp, .step hbetween hnext hmore,
        (leavesOver_step_iff hnext).2 hleaves⟩

/-- Where a longest continuation leaves something over, the whole is no continuation. -/
theorem IsContinuation.eq_nil_of_leavesOver (h : IsContinuation more steps)
    (hleaves : LeavesOver (read ++ more) rest) {steps' : List (Combinator × Compound)}
    (hwhole : IsContinuation (more ++ rest) steps') : rest = [] := by
  induction h generalizing read steps' with
  | done =>
    rw [List.nil_append] at hwhole
    cases hwhole with
    | done => rfl
    | step hbetween hnext hmore =>
      -- the rest would go on with a step of the whole
      exact absurd (hmore.goesOn hbetween hnext) (hleaves.stops _ _ _)
  | @step between next more _ _ _ hbetween hnext hmore ih =>
    have hleaves := (leavesOver_step_iff hnext).1 hleaves
    have hgoes := hmore.goesOn_append hbetween hnext hleaves.parts hleaves.word
    generalize between ++ next ++ more ++ rest = text at hwhole hgoes
    cases hwhole with
    | done => exact absurd hgoes.length_lt (Nat.not_lt_zero _)
    | step hbetween' hnext' hmore' =>
      -- the whole takes the same step, since there is no other
      obtain rfl := hgoes.rest_eq (hmore'.goesOn hbetween' hnext')
      exact ih hleaves hmore'

/-- Where a longest complex selector leaves something over, the whole is none. -/
theorem IsComplex.eq_nil_of_leavesOver (h : IsComplex read first steps)
    (hleaves : LeavesOver read rest) {first' : Compound} {steps' : List (Combinator × Compound)}
    (hwhole : IsComplex (read ++ rest) first' steps') : rest = [] := by
  cases h with
  | @intro start more _ _ hfirst hmore =>
    have hread : compound? (start ++ more ++ rest) = _ := List.append_assoc .. ▸
      compound?_of_isCompound hfirst (hmore.endsParts hleaves.parts) (hmore.endsWord hleaves.word)
    generalize start ++ more ++ rest = text at hwhole hread
    cases hwhole with
    | @intro start' more' _ _ hfirst' hmore' =>
      have hparts : EndsParts more' := by simpa using hmore'.endsParts endsParts_nil
      have hend : EndsWord start' more' := by simpa using hmore'.endsWord (endsWord_nil _)
      -- both start with the compound selector that is read there
      rw [compound?_of_isCompound hfirst' hparts hend] at hread
      obtain ⟨-, rfl⟩ := Prod.mk.inj (Option.some.inj hread)
      exact hmore.eq_nil_of_leavesOver hleaves hmore'

/-- Two compound selectors with a combinator between them start a text if and only if a longest
complex selector does of which they are the first. -/
theorem combines_iff :
    Combines text combinator ↔
      ∃ read rest, text = read ++ rest ∧ IsCombination read combinator ∧ LeavesOver read rest := by
  constructor
  · rintro ⟨start, between, next, after, first, second, rfl, hfirst, hbetween, hnext, hparts, hend⟩
    obtain ⟨more, steps, rest, rfl, hmore, hleaves⟩ := exists_isContinuation hparts hend
    exact ⟨start ++ (between ++ next ++ more), rest, by simp,
      ⟨first, second, steps, .intro hfirst (.step hbetween hnext hmore)⟩,
      (leavesOver_step_iff hnext).2 hleaves⟩
  · rintro ⟨read, rest, rfl, ⟨first, second, steps, hcomplex⟩, hleaves⟩
    cases hcomplex with
    | @intro start _ _ _ hfirst hsteps =>
      cases hsteps with
      | @step between next more _ _ _ hbetween hnext hmore =>
        have hleaves := (leavesOver_step_iff hnext).1 hleaves
        exact ⟨start, between, next, more ++ rest, first, second, by simp, hfirst, hbetween, hnext,
          hmore.endsParts hleaves.parts, hmore.endsWord hleaves.word⟩

/-- A longest complex selector is the whole text if nothing is left over, and otherwise the text is
none. -/
theorem IsCombination.exists_append_iff (h : IsCombination read combinator)
    (hleaves : LeavesOver read rest) :
    (∃ whole, IsCombination (read ++ rest) whole) ↔ rest = [] := by
  constructor
  · rintro ⟨whole, _, _, _, hwhole⟩
    obtain ⟨_, _, _, hread⟩ := h
    exact hread.eq_nil_of_leavesOver hleaves hwhole
  · rintro rfl
    rw [List.append_nil]
    exact ⟨combinator, h⟩

/-! ### The alternative at fault -/

/-- The first of some texts that is no compound selector. -/
def IsFirstFault (texts : List (List Char)) (text : List Char) : Prop :=
  ∃ before after, texts = before ++ text :: after ∧
    (∀ earlier ∈ before, ∃ compound, IsCompound earlier compound) ∧
    ¬ ∃ compound, IsCompound text compound

/-- The first alternative that is no compound selector decides how a selector fails. -/
theorem parse_eq_error_iff {selector : String} {problem : Problem} :
    parse selector = .error problem ↔
      ∃ text, IsFirstFault ((pieces (· == ',') selector.toList).map trim) text ∧
        ((∃ combinator, problem = .combinator combinator ∧ Combines text combinator) ∨
          problem = .unparseable ∧ ¬ ∃ combinator, Combines text combinator) := by
  have hmap : parse selector = .error problem ↔
      ((pieces (· == ',') selector.toList).map trim).mapM alternative = .error problem := by
    rw [parse]
    cases ((pieces (· == ',') selector.toList).map trim).mapM alternative <;> simp [Except.map]
  have hlast : ∀ text ∈ (pieces (· == ',') selector.toList).map trim,
      ∀ c ∈ text.getLast?, isBlank c = false :=
    List.forall_mem_map.2 fun piece _ => (trims_trim piece).last
  generalize (pieces (· == ',') selector.toList).map trim = texts at hmap hlast
  rw [hmap, Except.mapM_eq_error_iff]
  constructor
  · rintro ⟨before, text, after, rfl, hbefore, htext⟩
    obtain ⟨hnone, hproblem⟩ := (alternative_eq_error_iff (hlast text (by simp))).1 htext
    refine ⟨text, ⟨before, after, rfl, fun earlier hearlier => ?_, hnone⟩, hproblem⟩
    obtain ⟨compound, hread⟩ := hbefore earlier hearlier
    exact ⟨compound, (alternative_eq_ok_iff (hlast earlier (by simp [hearlier]))).1 hread⟩
  · rintro ⟨text, ⟨before, after, rfl, hbefore, hnone⟩, hproblem⟩
    have htext := (alternative_eq_error_iff (hlast text (by simp))).2 ⟨hnone, hproblem⟩
    refine ⟨before, text, after, rfl, fun earlier hearlier => ?_, htext⟩
    obtain ⟨compound, hcompound⟩ := hbefore earlier hearlier
    exact ⟨compound, (alternative_eq_ok_iff (hlast earlier (by simp [hearlier]))).2 hcompound⟩

/-- The first alternative that is no compound selector is blamed on a combinator if and only if a
complex selector starts it of which the combinator joins the first two compound selectors, whatever
a longest such selector leaves over. As a whole the alternative is a complex selector if and only if
nothing is left over. It is unparseable if no two compound selectors with a combinator between them
start it. -/
theorem parse_complex (selector : String) :
    ∃ pieces texts, CutsAt ',' selector.toList pieces ∧ List.Forall₂ Trims pieces texts ∧
      (∀ combinator, parse selector = .error (.combinator combinator) ↔
        ∃ text read rest, IsFirstFault texts text ∧ text = read ++ rest ∧
          IsCombination read combinator ∧ LeavesOver read rest ∧
          ((∃ whole, IsCombination text whole) ↔ rest = [])) ∧
      (parse selector = .error .unparseable ↔
        ∃ text, IsFirstFault texts text ∧
          ¬ ∃ combinator read rest, text = read ++ rest ∧ IsCombination read combinator ∧
            LeavesOver read rest) := by
  refine ⟨pieces (· == ',') selector.toList, (pieces (· == ',') selector.toList).map trim,
    cutsAt_pieces ',' selector.toList, ?_, fun combinator => ?_, ?_⟩
  · rw [List.forall₂_map_right_iff, List.forall₂_same]
    exact fun piece _ => trims_trim piece
  · rw [parse_eq_error_iff]
    constructor
    · rintro ⟨text, hfault, ⟨combinator', heq, hcombines⟩ | ⟨heq, -⟩⟩
      · obtain rfl := Problem.combinator.inj heq
        obtain ⟨read, rest, rfl, hread, hleaves⟩ := combines_iff.1 hcombines
        exact ⟨_, read, rest, hfault, rfl, hread, hleaves, hread.exists_append_iff hleaves⟩
      · contradiction
    · rintro ⟨text, read, rest, hfault, htext, hread, hleaves, -⟩
      have hcombines := combines_iff.2 ⟨read, rest, htext, hread, hleaves⟩
      exact ⟨text, hfault, .inl ⟨combinator, rfl, hcombines⟩⟩
  · rw [parse_eq_error_iff]
    simp [combines_iff]

/-- A selector is blamed on a combinator although it is no complex selector: behind the second
compound selector of its one alternative an exclamation mark is left over. -/
theorem parse_complex_exclaimed :
    let selector := ".a > .b!"
    CutsAt ',' selector.toList [selector.toList] ∧ Trims selector.toList selector.toList ∧
      IsFirstFault [selector.toList] selector.toList ∧
      parse selector = .error (.combinator .child) ∧
      ¬ ∃ combinator, IsCombination selector.toList combinator := by
  intro selector
  have hcut : pieces (· == ',') selector.toList = [selector.toList] := by decide +kernel
  have htrims : Trims selector.toList selector.toList :=
    Eq.subst (by decide +kernel) (trims_trim selector.toList)
  have hread : alternative selector.toList = .error (.combinator .child) := by decide +kernel
  have hfault := ((alternative_eq_error_iff htrims.last).1 hread).1
  refine ⟨hcut ▸ cutsAt_pieces ',' selector.toList, htrims,
    ⟨[], [], rfl, by simp, hfault⟩, by decide +kernel, ?_⟩
  -- the longest complex selector ends before the exclamation mark
  have hfirst : IsCompound ".a".toList { classes := ["a"] } :=
    isCompound_of_compound? (by decide +kernel)
  have hsecond : IsCompound ".b".toList { classes := ["b"] } :=
    isCompound_of_compound? (by decide +kernel)
  have hblank : AllBlank [' '] := by simp [AllBlank]; decide
  have hbetween : IsCombinator ([' '] ++ '>' :: [' ']) .child := .signed (by simp) hblank hblank
  have hlongest : IsCombination ".a > .b".toList .child :=
    ⟨_, _, _, .intro hfirst (.step hbetween hsecond .done)⟩
  have hleaves : LeavesOver ".a > .b".toList ['!'] := by
    have hword : inIdentifier '!' = false := by decide
    refine ⟨by simp [EndsParts], endsWord_of_head? (by simpa using hword), fun _ _ _ hgoes => ?_⟩
    obtain ⟨middle, hmiddle, -⟩ := goesOn_iff.1 hgoes
    have hnone : combinator? ['!'] = none := by decide
    rw [hnone] at hmiddle
    contradiction
  have htext : selector.toList = ".a > .b".toList ++ ['!'] := by decide +kernel
  rw [htext, hlongest.exists_append_iff hleaves]
  exact List.cons_ne_nil _ _

end ElementLint.Selector
