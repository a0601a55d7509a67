import ElementLint.Proofs.Error
import ElementLint.Registry
import Mathlib.Data.List.Induction
import Mathlib.Data.List.Nodup

/-!
# Registering and selecting rules

The table of a registry leads to all of its rules (`Registry.find?_eq_some_iff`), and no two of them
have one code (`Registry.nodup_codes`). A call of `Registry.register` either puts a rule behind the
others (`Registry.register_of_not_mem`) or is refused and changes nothing
(`Registry.register_of_mem`). So whatever calls led to a registry, it holds the accepted rules in
their order, refuses a rule if and only if one of its code came before, and answers a request with
the rules of the requested codes, or with the first code that it does not know
(`Registry.select_registerEach`).
-/

namespace ElementLint.Registry

variable {registry start : Registry} {rule : Rule} {code : String} {codes : List String}
  {calls : List Rule}

/-! ### Looking up rules -/

/-- A code is not in the table if no rule has it. -/
theorem lookup_eq_none_iff : registry.places.lookup code = none ↔ code ∉ registry.codes := by
  have hmem : code ∈ registry.codes ↔ ∃ place, registry.places.lookup code = some place := by
    rw [codes, List.mem_iff_getElem?]
    simp only [List.getElem?_map, registry.isPlaceTable code]
  rw [hmem, Option.eq_none_iff_forall_ne_some, not_exists]

/-- No code is used twice, since the table gives it one place. -/
theorem nodup_codes (registry : Registry) : registry.codes.Nodup := by
  rw [List.nodup_iff_getElem?_ne_getElem?]
  intro first second hlt hsecond heq
  have hcode := List.getElem?_eq_getElem hsecond
  have hplace := (registry.isPlaceTable _ second).2 ((List.getElem?_map ..).symm.trans hcode)
  have hplace' :=
    (registry.isPlaceTable _ first).2 ((List.getElem?_map ..).symm.trans (heq.trans hcode))
  exact Nat.ne_of_lt hlt (Option.some.inj (hplace'.symm.trans hplace))

theorem find?_eq_none_iff : registry.find? code = none ↔ code ∉ registry.codes := by
  rw [← lookup_eq_none_iff, find?]
  split
  case h_1 h => simp [h]
  case h_2 place h => simp [h]

/-- The table leads to every rule. -/
theorem find?_eq_some_iff :
    registry.find? code = some rule ↔ rule ∈ registry.rules ∧ rule.code = code := by
  constructor
  · intro h
    rw [find?] at h
    split at h
    case h_1 => contradiction
    case h_2 place hplace =>
      obtain rfl := Option.some.inj h
      have hcode := (registry.isPlaceTable code place).1 hplace
      rw [List.getElem?_eq_getElem (lt_of_lookup hplace)] at hcode
      exact ⟨List.get_mem .., Option.some.inj hcode⟩
  · rintro ⟨hmem, rfl⟩
    obtain ⟨place, hrule⟩ := List.mem_iff_getElem?.1 hmem
    have hplace : registry.places.lookup rule.code = some place :=
      (registry.isPlaceTable rule.code place).2 (by rw [hrule]; rfl)
    rw [find?]
    split
    case h_1 hnone => exact absurd hplace (by simp [hnone])
    case h_2 found hfound =>
      obtain rfl := Option.some.inj (hplace.symm.trans hfound)
      rw [List.get_eq_getElem, ← List.getElem?_eq_getElem, hrule]

/-! ### Registering rules -/

theorem register_of_mem (h : rule.code ∈ registry.codes) :
    registry.register rule = (.error (.duplicateRule rule.code), registry) := by
  rw [register]
  split
  case h_1 => rfl
  case h_2 hnone => exact absurd h (lookup_eq_none_iff.1 hnone)

theorem register_of_not_mem (h : rule.code ∉ registry.codes) :
    ∃ next, registry.register rule = (.ok (), next) ∧ next.rules = registry.rules ++ [rule] := by
  rw [register]
  split
  case h_1 place hplace =>
    rw [lookup_eq_none_iff.2 h] at hplace
    contradiction
  case h_2 hnone => exact ⟨_, rfl, rfl⟩

/-- Rules with different new codes are all accepted. -/
theorem registerAll_eq_ok (hnodup : (registry.codes ++ calls.map (·.code)).Nodup) :
    ∃ next, registry.registerAll calls = .ok next ∧ next.rules = registry.rules ++ calls := by
  induction calls generalizing registry with
  | nil => exact ⟨registry, rfl, (List.append_nil _).symm⟩
  | cons rule calls ih =>
    have hnew : rule.code ∉ registry.codes := fun hmem =>
      (List.disjoint_of_nodup_append hnodup) hmem List.mem_cons_self
    obtain ⟨next, hregister, hrules⟩ := register_of_not_mem hnew
    have hcodes : next.codes ++ calls.map (·.code) =
        registry.codes ++ (rule :: calls).map (·.code) := by
      simp [codes, hrules]
    obtain ⟨last, hlast, hlastRules⟩ := ih (hcodes ▸ hnodup)
    refine ⟨last, ?_, by rw [hlastRules, hrules, List.append_assoc, List.singleton_append]⟩
    rw [registerAll, hregister]
    exact hlast

/-- The rules of this library have different codes. -/
theorem exists_builtin_eq_ok : ∃ registry, builtin = .ok registry ∧
    registry.rules = [PaperButtonStyle.rule, ContentToSlotUsages.rule] :=
  registerAll_eq_ok (by simp [codes, empty, PaperButtonStyle.rule, ContentToSlotUsages.rule,
    PaperButtonStyle.code, ContentToSlotUsages.code])

/-- Registers some rules one after the other. Gives the answer to each call and the registry after
all of them. -/
def registerEach (registry : Registry) : List Rule → List (Except LintError Unit) × Registry
  | [] => ([], registry)
  | rule :: rules =>
    let (answer, next) := registry.register rule
    let (answers, last) := next.registerEach rules
    (answer :: answers, last)

/-- The rules among some calls that are accepted. -/
def accepted (registry : Registry) (calls : List Rule) : List Rule :=
  ((calls.zip (registry.registerEach calls).1).filter (·.2.isOk)).map (·.1)

/-- A registry holds the rules that were accepted, in the order of the calls. -/
theorem rules_registerEach (registry : Registry) (calls : List Rule) :
    (registry.registerEach calls).2.rules = registry.rules ++ registry.accepted calls := by
  induction calls generalizing registry with
  | nil => exact (List.append_nil _).symm
  | cons rule calls ih =>
    by_cases h : rule.code ∈ registry.codes
    · rw [accepted, registerEach, register_of_mem h]
      exact ih registry
    · obtain ⟨next, hregister, hrules⟩ := register_of_not_mem h
      have hlast := ih next
      rw [hrules, List.append_assoc] at hlast
      rw [accepted, registerEach, hregister]
      exact hlast

/-- The codes in use are those at the start and those of all calls, accepted or not. -/
theorem mem_codes_registerEach : code ∈ (start.registerEach calls).2.codes ↔
    ∃ earlier ∈ start.rules ++ calls, earlier.code = code := by
  induction calls generalizing start with
  | nil => simp [registerEach, codes]
  | cons rule calls ih =>
    by_cases h : rule.code ∈ start.codes
    · -- the code of a refused rule is that of an earlier one
      rw [registerEach, register_of_mem h]
      dsimp only
      rw [ih]
      obtain ⟨first, hfirst, hcode⟩ := List.mem_map.1 h
      constructor
      · rintro ⟨earlier, hmem, rfl⟩
        refine ⟨earlier, ?_, rfl⟩
        rcases List.mem_append.1 hmem with hmem | hmem
        · exact List.mem_append_left _ hmem
        · exact List.mem_append_right _ (List.mem_cons_of_mem _ hmem)
      · rintro ⟨earlier, hmem, rfl⟩
        rcases List.mem_append.1 hmem with hmem | hmem
        · exact ⟨earlier, List.mem_append_left _ hmem, rfl⟩
        · rcases List.mem_cons.1 hmem with rfl | hmem
          · exact ⟨first, List.mem_append_left _ hfirst, hcode⟩
          · exact ⟨earlier, List.mem_append_right _ hmem, rfl⟩
    · obtain ⟨next, hregister, hrules⟩ := register_of_not_mem h
      rw [registerEach, hregister]
      dsimp only
      rw [ih, hrules, List.append_assoc, List.singleton_append]

/-- A call that follows some others is answered as it is by the registry that they lead to. -/
theorem registerEach_concat (start : Registry) (calls : List Rule) (rule : Rule) :
    start.registerEach (calls ++ [rule]) =
      ((start.registerEach calls).1 ++ [((start.registerEach calls).2.register rule).1],
        ((start.registerEach calls).2.register rule).2) := by
  induction calls generalizing start with
  | nil => rfl
  | cons first calls ih =>
    rw [List.cons_append, registerEach, registerEach]
    dsimp only
    rw [ih, List.cons_append]

/-! ### Selecting rules -/

/-- The rules that are registered under some codes, one by one. -/
def Serves (registry : Registry) (codes : List String) (rules : List Rule) : Prop :=
  List.Forall₂ (fun code rule => rule ∈ registry.rules ∧ rule.code = code) codes rules

theorem Serves.map_code {rules : List Rule} (h : registry.Serves codes rules) :
    rules.map (·.code) = codes := by
  induction h with
  | nil => rfl
  | cons hrule _ ih => rw [List.map_cons, hrule.2, ih]

theorem choose_of_not_mem (chosen : List Rule) (h : code ∉ registry.codes) :
    registry.choose chosen code = .error (.unknownRule code) := by
  rw [choose, find?_eq_none_iff.2 h]

/-- A known code adds its rule to those of the codes before it, unless it is one of them. -/
theorem Serves.exists_choose {chosen : List Rule} (h : registry.Serves codes.eraseDups chosen)
    (hknown : code ∈ registry.codes) :
    ∃ rules, registry.choose chosen code = .ok rules ∧
      registry.Serves (codes ++ [code]).eraseDups rules := by
  obtain ⟨rule, hmem, rfl⟩ := List.mem_map.1 hknown
  have hchosen : chosen.any (·.code == rule.code) = true ↔ rule.code ∈ codes := by
    rw [← List.mem_eraseDups, ← h.map_code, List.any_eq_true, List.mem_map]
    simp only [beq_iff_eq]
  rw [choose, find?_eq_some_iff.2 ⟨hmem, rfl⟩]
  refine ⟨_, rfl, ?_⟩
  rw [List.eraseDups_append]
  by_cases hcode : rule.code ∈ codes
  · rw [if_pos (hchosen.2 hcode)]
    simpa [List.removeAll, hcode] using h
  · rw [if_neg (mt hchosen.1 hcode)]
    have hrest : ([rule.code].removeAll codes).eraseDups = [rule.code] := by
      simp [List.removeAll, hcode, List.eraseDups_cons]
    rw [hrest]
    exact List.rel_append h (.cons ⟨hmem, rfl⟩ .nil)

/-- Codes are looked up one after the other. -/
theorem select_append (codes later : List String) :
    registry.select (some (codes ++ later)) =
      registry.select (some codes) >>= fun chosen => later.foldlM registry.choose chosen :=
  List.foldlM_append

/-- Known codes are answered with their rules, each once. -/
theorem exists_select_eq_ok (h : ∀ code ∈ codes, code ∈ registry.codes) :
    ∃ rules, registry.select (some codes) = .ok rules ∧ registry.Serves codes.eraseDups rules := by
  induction codes using List.reverseRecOn with
  | nil => exact ⟨[], rfl, .nil⟩
  | append_singleton codes code ih =>
    obtain ⟨chosen, hchosen, hserves⟩ := ih fun known hmem => h known (List.mem_append_left _ hmem)
    obtain ⟨rules, hrules, hserves⟩ := hserves.exists_choose (h code (by simp))
    refine ⟨rules, ?_, hserves⟩
    rw [select_append, hchosen]
    change [code].foldlM registry.choose chosen = _
    rw [List.foldlM_cons, hrules]
    rfl

/-- If a list holds an unknown code, it holds a first one. -/
theorem exists_first_unknown (h : ∃ code ∈ codes, code ∉ registry.codes) :
    ∃ before code after, codes = before ++ code :: after ∧
      (∀ known ∈ before, known ∈ registry.codes) ∧ code ∉ registry.codes := by
  obtain ⟨code, hmem, hunknown⟩ := h
  have hsome : (codes.find? (fun code => decide (code ∉ registry.codes))).isSome = true := by
    rw [List.find?_isSome]
    exact ⟨code, hmem, decide_eq_true hunknown⟩
  obtain ⟨first, hfind⟩ := Option.isSome_iff_exists.1 hsome
  obtain ⟨hfirst, before, after, rfl, hbefore⟩ := List.find?_eq_some_iff_append.1 hfind
  refine ⟨before, first, after, rfl, fun known hknown => ?_, of_decide_eq_true hfirst⟩
  simpa using hbefore known hknown

/-- The first unknown code is reported. -/
theorem select_of_unknown {before after : List String}
    (hbefore : ∀ known ∈ before, known ∈ registry.codes) (h : code ∉ registry.codes) :
    registry.select (some (before ++ code :: after)) = .error (.unknownRule code) := by
  obtain ⟨chosen, hchosen, -⟩ := exists_select_eq_ok hbefore
  rw [select_append, hchosen]
  change (code :: after).foldlM registry.choose chosen = _
  rw [List.foldlM_cons, choose_of_not_mem chosen h]
  rfl

/-- What a registry holds and answers after some calls. A further call is refused if and only if the
code of its rule is that of an earlier one, and then it changes nothing; otherwise the rule is put
behind the others. The registry lists the rules that it held at the start and those that were
accepted, in their order and without two of one code. A request for the rules of some codes fails if
and only if one of them is unknown, and then reports the first such code; otherwise it is answered
with the registered rules of the codes, each once and in the order of the codes. -/
theorem select_registerEach (start : Registry) (calls : List Rule) :
    let answers := (start.registerEach calls).1
    let registry := (start.registerEach calls).2
    (∀ rule, ∃ answer next,
      start.registerEach (calls ++ [rule]) = (answers ++ [answer], next) ∧
      (answer = .error (.duplicateRule rule.code) ↔
        ∃ earlier ∈ start.rules ++ calls, earlier.code = rule.code) ∧
      (answer = .error (.duplicateRule rule.code) ∧ next = registry ∨
        answer = .ok () ∧ next.rules = registry.rules ++ [rule])) ∧
    registry.rules = start.rules ++ start.accepted calls ∧
    registry.codes.Nodup ∧
    registry.descriptions = registry.rules.map (fun rule => (rule.code, rule.description)) ∧
    registry.select none = .ok registry.rules ∧
    ∀ codes,
      ((∃ error, registry.select (some codes) = .error error) ↔
        ∃ code ∈ codes, code ∉ registry.codes) ∧
      (∀ before code after, codes = before ++ code :: after →
        (∀ known ∈ before, known ∈ registry.codes) → code ∉ registry.codes →
          registry.select (some codes) = .error (.unknownRule code)) ∧
      ((∀ code ∈ codes, code ∈ registry.codes) →
        ∃ rules, registry.select (some codes) = .ok rules ∧
          registry.Serves codes.eraseDups rules) := by
  intro answers registry
  refine ⟨fun rule => ⟨_, _, registerEach_concat start calls rule, ?_⟩,
    rules_registerEach start calls, nodup_codes registry, rfl, rfl, fun codes => ⟨?_, ?_,
    exists_select_eq_ok⟩⟩
  -- the codes that are taken are those of all earlier rules, whether these were accepted or not
  · rw [← mem_codes_registerEach]
    by_cases hcode : rule.code ∈ registry.codes
    · have hregister : registry.register rule = _ := register_of_mem hcode
      rw [hregister]
      exact ⟨⟨fun _ => hcode, fun _ => rfl⟩, .inl ⟨rfl, rfl⟩⟩
    · obtain ⟨next, hregister, hrules⟩ := register_of_not_mem hcode
      refine ⟨⟨fun hanswer => ?_, fun hmem => absurd hmem hcode⟩, .inr ?_⟩
      · rw [hregister] at hanswer
        contradiction
      · rw [hregister]
        exact ⟨rfl, hrules⟩
  · constructor
    · rintro ⟨error, herror⟩
      by_contra hnone
      push Not at hnone
      obtain ⟨rules, hrules, -⟩ := exists_select_eq_ok hnone
      rw [hrules] at herror
      contradiction
    · intro hunknown
      obtain ⟨before, code, after, rfl, hbefore, hcode⟩ := exists_first_unknown hunknown
      exact ⟨_, select_of_unknown hbefore hcode⟩
  · rintro before code after rfl hbefore hunknown
    exact select_of_unknown hbefore hunknown

/-- Three calls of which the last one repeats a code. It is refused, and the first rule of the code
is the one that is selected. -/
theorem select_registerEach_repeated :
    let first : Rule := ⟨"a", "first", fun _ => .done []⟩
    let other : Rule := ⟨"b", "other", fun _ => .done []⟩
    let again : Rule := ⟨"a", "again", fun _ => .done []⟩
    let registry := (empty.registerEach [first, other, again]).2
    registry.rules = [first, other] ∧
      (∃ earlier ∈ empty.rules ++ [first, other], earlier.code = again.code) ∧
      (empty.registerEach ([first, other] ++ [again])).1 =
        [.ok (), .ok (), .error (.duplicateRule "a")] ∧
      registry.select (some ["b", "c", "d"]) = .error (.unknownRule "c") ∧
      ∃ rules, registry.select (some ["b", "a", "b"]) = .ok rules ∧
        registry.Serves ["b", "a"] rules := by
  intro first other again registry
  have hcodes : registry.codes = ["a", "b"] := rfl
  have hearlier : ∃ earlier ∈ empty.rules ++ [first, other], earlier.code = again.code :=
    ⟨first, by simp, rfl⟩
  obtain ⟨hcall, -⟩ := select_registerEach empty [first, other]
  obtain ⟨answer, next, hanswers, hiff, -⟩ := hcall again
  obtain ⟨-, -, -, -, -, hselect⟩ := select_registerEach empty [first, other, again]
  refine ⟨rfl, hearlier, ?_, ?_, ?_⟩
  · rw [hanswers, hiff.2 hearlier]
    rfl
  · refine (hselect ["b", "c", "d"]).2.1 ["b"] "c" ["d"] rfl ?_ ?_
    · exact hcodes ▸ by decide
    · exact hcodes ▸ by decide
  · exact (hselect ["b", "a", "b"]).2.2 (hcodes ▸ by decide)

end ElementLint.Registry
