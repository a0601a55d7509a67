import ElementLint.Error
import Mathlib.Data.List.Forall2

/-!
# Computations over lists that may fail

What a computation over a list answers comes from the elements of the list
(`Except.exists_of_mem_mapM`, `Except.exists_of_mem_filterMapM`), one by one
(`Except.mapM_eq_ok_iff`, `Except.filterMapM_eq_ok_iff`, `Except.flatten_mapM_eq_ok_iff`). The first
element that fails makes it fail (`Except.mapM_eq_error_iff`), and nothing else does
(`Except.exists_mapM_eq_error_iff`, `Except.exists_filterMapM_eq_error_iff`). A computation answers
if its steps all answer (`Outcome.mapM_eq_done`), and only then
(`Outcome.exists_done_of_mapM_eq_done`).
-/

namespace ElementLint

variable {α β γ ε : Type}

namespace Except

/-- A computation in two steps answers if both of them do. -/
theorem bind_eq_ok {first : Except ε α} {next : α → Except ε β} {answer : β}
    (h : first >>= next = .ok answer) : ∃ value, first = .ok value ∧ next value = .ok answer := by
  cases first with
  | error error => contradiction
  | ok value => exact ⟨value, rfl, h⟩

theorem exists_of_map_eq_ok {first : Except ε α} {f : α → β} {answer : β}
    (h : first.map f = .ok answer) : ∃ value, first = .ok value ∧ f value = answer := by
  cases first with
  | error error => contradiction
  | ok value => exact ⟨value, rfl, Except.ok.inj h⟩

theorem exists_map_eq_error_iff {first : Except ε α} {f : α → β} :
    (∃ error, first.map f = .error error) ↔ ∃ error, first = .error error := by
  cases first <;> simp [Except.map]

/-- Two answers taken together are there if both of them are. -/
theorem append_eq_ok_iff {first second : Except ε (List α)} {answer : List α} :
    (do return (← first) ++ (← second)) = .ok answer ↔
      ∃ front back, first = .ok front ∧ second = .ok back ∧ front ++ back = answer := by
  constructor
  · intro h
    obtain ⟨front, hfront, h⟩ := bind_eq_ok h
    obtain ⟨back, hback, h⟩ := bind_eq_ok h
    exact ⟨front, back, hfront, hback, Except.ok.inj h⟩
  · rintro ⟨front, back, rfl, rfl, rfl⟩
    rfl

theorem exists_append_eq_error_iff {first second : Except ε (List α)} :
    (∃ error, (do return (← first) ++ (← second)) = .error error) ↔
      (∃ error, first = .error error) ∨ ∃ error, second = .error error := by
  cases first with
  | error error => exact ⟨fun _ => .inl ⟨error, rfl⟩, fun _ => ⟨error, rfl⟩⟩
  | ok front =>
    cases second with
    | error error => exact ⟨fun _ => .inr ⟨error, rfl⟩, fun _ => ⟨error, rfl⟩⟩
    | ok back =>
      constructor
      · rintro ⟨error, h⟩
        contradiction
      · rintro (⟨error, h⟩ | ⟨error, h⟩) <;> contradiction

/-- The answers of `mapM` are those of the elements, one by one. -/
theorem mapM_eq_ok_iff {f : α → Except ε β} {list : List α} {answers : List β} :
    list.mapM f = .ok answers ↔
      List.Forall₂ (fun element answer => f element = .ok answer) list answers := by
  constructor
  · intro h
    induction list generalizing answers with
    | nil =>
      obtain rfl : [] = answers := Except.ok.inj h
      exact .nil
    | cons element rest ih =>
      rw [List.mapM_cons] at h
      obtain ⟨first, hfirst, h⟩ := bind_eq_ok h
      obtain ⟨later, hrest, h⟩ := bind_eq_ok h
      obtain rfl : first :: later = answers := Except.ok.inj h
      exact .cons hfirst (ih hrest)
  · intro h
    induction h with
    | nil => rfl
    | cons hfirst _ ih =>
      rw [List.mapM_cons, hfirst, ih]
      rfl

/-- `mapM` fails as the first element does that fails. -/
theorem mapM_eq_error_iff {f : α → Except ε β} {list : List α} {error : ε} :
    list.mapM f = .error error ↔
      ∃ before element after, list = before ++ element :: after ∧
        (∀ earlier ∈ before, ∃ answer, f earlier = .ok answer) ∧ f element = .error error := by
  constructor
  -- an element that fails hides all later ones, so the first failure is found on the way
  · intro h
    induction list with
    | nil => contradiction
    | cons element rest ih =>
      rw [List.mapM_cons] at h
      cases helement : f element with
      | error first =>
        rw [helement] at h
        obtain rfl : first = error := Except.error.inj h
        exact ⟨[], element, rest, rfl, by simp, helement⟩
      | ok answer =>
        cases hrest : rest.mapM f with
        | ok later =>
          rw [helement, hrest] at h
          contradiction
        | error later =>
          rw [helement, hrest] at h
          obtain rfl : later = error := Except.error.inj h
          obtain ⟨before, failing, after, rfl, hbefore, hfailing⟩ := ih hrest
          refine ⟨element :: before, failing, after, rfl, ?_, hfailing⟩
          exact List.forall_mem_cons.2 ⟨⟨answer, helement⟩, hbefore⟩
  · rintro ⟨before, element, after, rfl, hbefore, helement⟩
    induction before with
    | nil =>
      rw [List.nil_append, List.mapM_cons, helement]
      rfl
    | cons first before ih =>
      obtain ⟨⟨answer, hfirst⟩, hbefore⟩ := List.forall_mem_cons.1 hbefore
      rw [List.cons_append, List.mapM_cons, hfirst, ih hbefore]
      rfl

/-- Every answer of `mapM` is that of an element. -/
theorem exists_of_mem_mapM {f : α → Except ε β} {list : List α} {answers : List β}
    (h : list.mapM f = .ok answers) {answer : β} (hmem : answer ∈ answers) :
    ∃ element ∈ list, f element = .ok answer := by
  induction list generalizing answers with
  | nil =>
    obtain rfl : [] = answers := Except.ok.inj h
    contradiction
  | cons element rest ih =>
    rw [List.mapM_cons] at h
    obtain ⟨first, hfirst, h⟩ := bind_eq_ok h
    obtain ⟨later, hrest, h⟩ := bind_eq_ok h
    obtain rfl : first :: later = answers := Except.ok.inj h
    rcases List.mem_cons.1 hmem with rfl | hmem
    · exact ⟨element, List.mem_cons_self, hfirst⟩
    · obtain ⟨found, hfound, heq⟩ := ih hrest hmem
      exact ⟨found, List.mem_cons_of_mem _ hfound, heq⟩

/-- Every answer of `filterMapM` is that of an element. -/
theorem exists_of_mem_filterMapM {f : α → Except ε (Option β)} {list : List α} {answers : List β}
    (h : list.filterMapM f = .ok answers) {answer : β} (hmem : answer ∈ answers) :
    ∃ element ∈ list, f element = .ok (some answer) := by
  induction list generalizing answers with
  | nil =>
    obtain rfl : [] = answers := Except.ok.inj h
    contradiction
  | cons element rest ih =>
    rw [List.filterMapM_cons] at h
    obtain ⟨first, hfirst, h⟩ := bind_eq_ok h
    have hlater {later : List β} (hrest : rest.filterMapM f = .ok later) (hmem : answer ∈ later) :
        ∃ element' ∈ element :: rest, f element' = .ok (some answer) := by
      obtain ⟨found, hfound, heq⟩ := ih hrest hmem
      exact ⟨found, List.mem_cons_of_mem _ hfound, heq⟩
    cases first with
    | none => exact hlater h hmem
    | some first =>
      obtain ⟨later, hrest, h⟩ := bind_eq_ok h
      obtain rfl : first :: later = answers := Except.ok.inj h
      rcases List.mem_cons.1 hmem with rfl | hmem
      · exact ⟨element, List.mem_cons_self, hfirst⟩
      · exact hlater hrest hmem

/-- What is read off the answers of `mapM` is known if it is known for each of them. -/
theorem map_eq_of_mapM_eq_ok {f : α → Except ε β} {g : β → γ} {g' : α → γ} {list : List α}
    {answers : List β} (h : list.mapM f = .ok answers)
    (heq : ∀ element answer, f element = .ok answer → g answer = g' element) :
    answers.map g = list.map g' := by
  induction list generalizing answers with
  | nil =>
    obtain rfl : [] = answers := Except.ok.inj h
    rfl
  | cons element rest ih =>
    rw [List.mapM_cons] at h
    obtain ⟨first, hfirst, h⟩ := bind_eq_ok h
    obtain ⟨later, hrest, h⟩ := bind_eq_ok h
    obtain rfl : first :: later = answers := Except.ok.inj h
    rw [List.map_cons, List.map_cons, heq element first hfirst, ih hrest]

/-- What is read off the answers of `filterMapM` is known if it is known for each element. -/
theorem filterMap_eq_of_filterMapM_eq_ok {f : α → Except ε (Option β)} {g : β → Option γ}
    {g' : α → Option γ} {list : List α} {answers : List β} (h : list.filterMapM f = .ok answers)
    (heq : ∀ element answer, f element = .ok answer → answer.bind g = g' element) :
    answers.filterMap g = list.filterMap g' := by
  induction list generalizing answers with
  | nil =>
    obtain rfl : [] = answers := Except.ok.inj h
    rfl
  | cons element rest ih =>
    rw [List.filterMapM_cons] at h
    obtain ⟨first, hfirst, h⟩ := bind_eq_ok h
    have hhead := heq element first hfirst
    cases first with
    | none =>
      rw [List.filterMap_cons, ← hhead]
      exact ih h
    | some first =>
      obtain ⟨later, hrest, h⟩ := bind_eq_ok h
      obtain rfl : first :: later = answers := Except.ok.inj h
      rw [List.filterMap_cons, List.filterMap_cons, ← hhead, ih hrest]
      rfl

/-- The answers of `filterMapM` are those of the elements that have one. -/
theorem filterMapM_eq_ok_iff {f : α → Except ε (Option β)} {p : α → Bool} {R : α → β → Prop}
    {list : List α} {answers : List β}
    (hnone : ∀ element ∈ list, p element = false → f element = .ok none)
    (hsome : ∀ element ∈ list, p element = true → ∀ found,
      f element = .ok found ↔ ∃ answer, found = some answer ∧ R element answer) :
    list.filterMapM f = .ok answers ↔ List.Forall₂ R (list.filter p) answers := by
  induction list generalizing answers with
  | nil =>
    constructor
    · intro h
      obtain rfl : [] = answers := Except.ok.inj h
      exact .nil
    · rintro (_ | _)
      rfl
  | cons element rest ih =>
    obtain ⟨hnone, hnoneRest⟩ := List.forall_mem_cons.1 hnone
    obtain ⟨hsome, hsomeRest⟩ := List.forall_mem_cons.1 hsome
    have hrest {later : List β} :
        rest.filterMapM f = .ok later ↔ List.Forall₂ R (rest.filter p) later :=
      ih hnoneRest hsomeRest
    rw [List.filterMapM_cons]
    cases hp : p element with
    | false =>
      -- an element without an answer is passed on both sides
      rw [hnone hp, List.filter_cons_of_neg (by simp [hp])]
      exact hrest
    | true =>
      rw [List.filter_cons_of_pos hp]
      constructor
      · intro h
        obtain ⟨found, hfound, h⟩ := bind_eq_ok h
        obtain ⟨answer, rfl, hanswer⟩ := (hsome hp found).1 hfound
        obtain ⟨later, hlater, h⟩ := bind_eq_ok h
        obtain rfl : answer :: later = answers := Except.ok.inj h
        exact .cons hanswer (hrest.1 hlater)
      · rintro (_ | ⟨hanswer, hlater⟩)
        rw [(hsome hp _).2 ⟨_, rfl, hanswer⟩, hrest.2 hlater]
        rfl

/-- The answer of `mapM`, taken together, is that of the elements that answer anything. -/
theorem flatten_mapM_eq_ok_iff {f : α → Except ε (List β)} {p : α → Bool}
    {R : α → List β → Prop} {list : List α} {answer : List β}
    (hnil : ∀ element ∈ list, p element = false → f element = .ok [])
    (hsome : ∀ element ∈ list, p element = true → ∀ found,
      f element = .ok found ↔ R element found) :
    (list.mapM f).map List.flatten = .ok answer ↔
      ∃ answers, List.Forall₂ R (list.filter p) answers ∧ answers.flatten = answer := by
  have hmap : (list.mapM f).map List.flatten = .ok answer ↔
      ∃ answers, list.mapM f = .ok answers ∧ answers.flatten = answer :=
    ⟨exists_of_map_eq_ok, fun ⟨answers, hanswers, hflatten⟩ => by rw [hanswers, ← hflatten]; rfl⟩
  simp only [hmap, mapM_eq_ok_iff]
  clear hmap
  induction list generalizing answer with
  | nil => simp
  | cons element rest ih =>
    obtain ⟨hnil, hnilRest⟩ := List.forall_mem_cons.1 hnil
    obtain ⟨hsome, hsomeRest⟩ := List.forall_mem_cons.1 hsome
    have hrest (later : List β) :
        (∃ answers, List.Forall₂ (fun element answer => f element = .ok answer) rest answers ∧
          answers.flatten = later) ↔
        ∃ answers, List.Forall₂ R (rest.filter p) answers ∧ answers.flatten = later :=
      ih hnilRest hsomeRest
    cases hp : p element with
    | false =>
      rw [List.filter_cons_of_neg (by simp [hp])]
      -- an element that answers nothing adds nothing
      refine Iff.trans ⟨?_, ?_⟩ (hrest answer)
      · rintro ⟨_, _ | ⟨hfirst, hlater⟩, hflatten⟩
        obtain rfl := Except.ok.inj ((hnil hp).symm.trans hfirst)
        exact ⟨_, hlater, hflatten⟩
      · rintro ⟨later, hlater, hflatten⟩
        exact ⟨[] :: later, .cons (hnil hp) hlater, hflatten⟩
    | true =>
      rw [List.filter_cons_of_pos hp]
      constructor
      · rintro ⟨_, _ | ⟨hfirst, hlater⟩, rfl⟩
        obtain ⟨answers, hanswers, hflatten⟩ := (hrest _).1 ⟨_, hlater, rfl⟩
        refine ⟨_ :: answers, .cons ((hsome hp _).1 hfirst) hanswers, ?_⟩
        rw [List.flatten_cons, List.flatten_cons, hflatten]
      · rintro ⟨_, _ | ⟨hfirst, hlater⟩, rfl⟩
        obtain ⟨found, hfound, hflatten⟩ := (hrest _).2 ⟨_, hlater, rfl⟩
        refine ⟨_ :: found, .cons ((hsome hp _).2 hfirst) hfound, ?_⟩
        rw [List.flatten_cons, List.flatten_cons, hflatten]

/-- A computation over a list fails if one of its elements does. -/
theorem exists_mapM_eq_error_iff {f : α → Except ε β} {list : List α} :
    (∃ error, list.mapM f = .error error) ↔
      ∃ element ∈ list, ∃ error, f element = .error error := by
  constructor
  · rintro ⟨error, h⟩
    obtain ⟨before, element, after, rfl, -, helement⟩ := mapM_eq_error_iff.1 h
    exact ⟨element, by simp, error, helement⟩
  · rintro ⟨element, hmem, error, helement⟩
    cases h : list.mapM f with
    | error first => exact ⟨first, rfl⟩
    | ok answers =>
      -- then every element would answer, this one too
      obtain ⟨i, hi, rfl⟩ := List.mem_iff_getElem.1 hmem
      have hanswers := mapM_eq_ok_iff.1 h
      have hanswer := hanswers.get hi (hanswers.length_eq ▸ hi)
      rw [List.get_eq_getElem, helement] at hanswer
      contradiction

/-- Both ways to go through a list fail at the same elements. -/
theorem filterMapM_eq_map_mapM (f : α → Except ε (Option β)) (list : List α) :
    list.filterMapM f = (list.mapM f).map List.reduceOption := by
  induction list with
  | nil => rfl
  | cons element rest ih =>
    rw [List.filterMapM_cons, List.mapM_cons, ih]
    cases f element with
    | error error => rfl
    | ok found => cases found <;> cases rest.mapM f <;> rfl

/-- What is found in a list is gone through while it is looked for. -/
theorem mapM_filterMap (find : α → Option β) (f : β → Except ε γ) (list : List α) :
    (list.filterMap find).mapM f =
      list.filterMapM fun element => match find element with
        | none => .ok none
        | some found => (f found).map some := by
  induction list with
  | nil => rfl
  | cons element rest ih =>
    rw [List.filterMapM_cons, ← ih]
    cases hfind : find element with
    | none =>
      rw [List.filterMap_cons_none hfind]
      rfl
    | some found =>
      rw [List.filterMap_cons_some hfind, List.mapM_cons]
      dsimp only
      cases f found <;> rfl

theorem exists_filterMapM_eq_error_iff {f : α → Except ε (Option β)} {list : List α} :
    (∃ error, list.filterMapM f = .error error) ↔
      ∃ element ∈ list, ∃ error, f element = .error error := by
  rw [← exists_mapM_eq_error_iff, filterMapM_eq_map_mapM, exists_map_eq_error_iff]

end Except

namespace Outcome

instance : LawfulMonad Outcome :=
  LawfulMonad.mk' Outcome (fun outcome => by cases outcome <;> rfl) (fun _ _ => rfl)
    (fun outcome _ _ => by cases outcome <;> rfl)

/-- A computation in two steps answers if both of them do. -/
theorem bind_eq_done {first : Outcome α} {next : α → Outcome β} {answer : β}
    (h : first >>= next = .done answer) :
    ∃ value, first = .done value ∧ next value = .done answer := by
  cases first with
  | done value => exact ⟨value, rfl, h⟩
  | failed error => contradiction
  | aborted message => contradiction

theorem ofExcept_eq_done {result : Except LintError α} {value : α} :
    ofExcept result = .done value ↔ result = .ok value := by
  cases result <;> simp [ofExcept]

/-- A computation whose steps all answer answers. -/
theorem mapM_eq_done {f : α → Outcome β} {g : α → β} {list : List α}
    (h : ∀ element ∈ list, f element = .done (g element)) :
    list.mapM f = .done (list.map g) := by
  induction list with
  | nil => rfl
  | cons element rest ih =>
    rw [List.mapM_cons, h element List.mem_cons_self,
      ih fun later hmem => h later (List.mem_cons_of_mem _ hmem)]
    rfl

/-- A computation that answers answers at every step. -/
theorem exists_done_of_mapM_eq_done {f : α → Outcome β} {list : List α} {answers : List β}
    (h : list.mapM f = .done answers) : ∀ element ∈ list, ∃ answer, f element = .done answer := by
  induction list generalizing answers with
  | nil => simp
  | cons element rest ih =>
    rw [List.mapM_cons] at h
    obtain ⟨first, hfirst, h⟩ := bind_eq_done h
    obtain ⟨later, hrest, -⟩ := bind_eq_done h
    intro found hmem
    rcases List.mem_cons.1 hmem with rfl | hmem
    · exact ⟨first, hfirst⟩
    · exact ih hrest found hmem

end Outcome

end ElementLint
