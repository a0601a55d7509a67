import ElementLint.Span.Pairing
import Mathlib.Data.List.Forall2
import Mathlib.Order.Nat

/-!
# Leftmost pairings

The names of the elements of a tree are paired with the names of the spans of a text in order. What
is claimed is a pairing (`Pairing.claimsFrom_claims`): names go to spans of the same name, later
ones to later spans. For the names that no text may leave out it is the leftmost of all pairings
(`Pairing.forall₂_claims_le`): a greedy choice stays ahead of every other one, and the names between
that may be left out do no harm, since they only take spans of their own names.
-/

namespace ElementLint.Span.Pairing

open Text

variable {spanNames names : List String} {name : String} {next taken : Nat} {other : List Nat}

/-- A name goes to a span of that name, up to the case of letters. -/
def Names (spanNames : List String) (name : String) (i : Nat) : Prop :=
  ∃ spanName, spanNames[i]? = some spanName ∧ sameName spanName name = true

/-- Names go to spans of their names, later names to later spans. -/
structure IsPairing (spanNames names : List String) (taken : List Nat) : Prop where
  increasing : taken.Pairwise (· < ·)
  names : List.Forall₂ (Names spanNames) names taken

/-- What names take from a place on: spans of their names, later names later ones, or nothing. -/
inductive ClaimsFrom (spanNames : List String) : Nat → List String → List (Option Nat) → Prop
  | nil {next : Nat} : ClaimsFrom spanNames next [] []
  | pass {next : Nat} {name : String} {names : List String} {claimed : List (Option Nat)} :
      ClaimsFrom spanNames next names claimed →
      ClaimsFrom spanNames next (name :: names) (none :: claimed)
  | take {next taken : Nat} {name : String} {names : List String} {claimed : List (Option Nat)} :
      next ≤ taken → Names spanNames name taken →
      ClaimsFrom spanNames (taken + 1) names claimed →
      ClaimsFrom spanNames next (name :: names) (some taken :: claimed)

namespace ClaimsFrom

variable {claimed : List (Option Nat)}

theorem length_eq (h : ClaimsFrom spanNames next names claimed) :
    claimed.length = names.length := by
  induction h with
  | nil => rfl
  | pass _ ih => simp [ih]
  | take _ _ _ ih => simp [ih]

theorem next_le (h : ClaimsFrom spanNames next names claimed) (hmem : some taken ∈ claimed) :
    next ≤ taken := by
  induction h with
  | nil => simp at hmem
  | pass _ ih => exact ih (by simpa using hmem)
  | take hle _ _ ih =>
    rcases List.mem_cons.1 hmem with heq | hmem
    · exact (Option.some.inj heq) ▸ hle
    · exact hle.trans (Nat.le_of_succ_le (ih hmem))

/-- Later names take later spans. -/
theorem increasing (h : ClaimsFrom spanNames next names claimed) :
    (claimed.filterMap id).Pairwise (· < ·) := by
  induction h with
  | nil => exact .nil
  | pass _ ih => simpa using ih
  | take _ _ hrest ih =>
    refine List.pairwise_cons.2 ⟨fun later hlater => hrest.next_le ?_, ih⟩
    simpa using hlater

/-- What a name takes has that name. -/
theorem names_of_mem (h : ClaimsFrom spanNames next names claimed) :
    ∀ name taken, (name, some taken) ∈ names.zip claimed → Names spanNames name taken := by
  induction h with
  | nil => simp
  | pass _ ih =>
    intro name taken hmem
    rw [List.zip_cons_cons, List.mem_cons] at hmem
    rcases hmem with heq | hmem
    · simp at heq
    · exact ih name taken hmem
  | take _ hname _ ih =>
    intro name taken hmem
    rw [List.zip_cons_cons, List.mem_cons] at hmem
    rcases hmem with heq | hmem
    · simp only [Prod.mk.injEq, Option.some.injEq] at heq
      obtain ⟨rfl, rfl⟩ := heq
      exact hname
    · exact ih name taken hmem

end ClaimsFrom

/-! ### One claim -/

theorem getElem?_of_drop_eq_cons {spanName : String} {rest : List String}
    (h : spanNames.drop next = spanName :: rest) : spanNames[next]? = some spanName := by
  rw [← List.head?_drop, h, List.head?_cons]

theorem drop_succ_of_drop_eq_cons {spanName : String} {rest : List String}
    (h : spanNames.drop next = spanName :: rest) : spanNames.drop (next + 1) = rest := by
  rw [← List.tail_drop, h, List.tail_cons]

/-- No name goes to a span after the last one. -/
theorem not_names_of_drop_eq_nil {i : Nat} (h : spanNames.drop next = []) (hle : next ≤ i) :
    ¬ Names spanNames name i := by
  rintro ⟨spanName, hi, -⟩
  have hlt := (List.getElem?_eq_some_iff.1 hi).1
  have hlen := List.drop_eq_nil_iff.1 h
  omega

/-- The search for a name finds the first span of that name. -/
theorem findName_drop (spanNames : List String) (name : String) (next : Nat) :
    (∀ taken, findName name next (spanNames.drop next) = some taken →
        next ≤ taken ∧ Names spanNames name taken) ∧
      ∀ i, next ≤ i → Names spanNames name i →
        ∃ taken ≤ i, findName name next (spanNames.drop next) = some taken := by
  induction hrest : spanNames.drop next generalizing next with
  | nil =>
    exact ⟨by simp [findName], fun i hle hname =>
      absurd hname (not_names_of_drop_eq_nil hrest hle)⟩
  | cons spanName rest ih =>
    have hnext := getElem?_of_drop_eq_cons hrest
    obtain ⟨hfound, hleast⟩ := ih (next + 1) (drop_succ_of_drop_eq_cons hrest)
    rw [findName]
    by_cases hsame : sameName spanName name = true
    · rw [if_pos hsame]
      refine ⟨?_, fun i hle _ => ⟨next, hle, rfl⟩⟩
      rintro taken ⟨⟩
      exact ⟨le_rfl, spanName, hnext, hsame⟩
    · rw [if_neg hsame]
      constructor
      · intro taken htaken
        obtain ⟨hle, hname⟩ := hfound taken htaken
        exact ⟨by omega, hname⟩
      · intro i hle hname
        refine hleast i ?_ hname
        rcases Nat.lt_or_ge next i with hlt | hge
        · exact hlt
        · -- the span at the place itself has another name
          obtain ⟨spanName', hi, hsame'⟩ := hname
          rw [show i = next by omega, hnext, Option.some.injEq] at hi
          exact absurd (hi ▸ hsame') hsame

/-- What a name takes is a span of that name, not before the place of the claim. -/
theorem names_of_claim_eq_some (h : claim name next (spanNames.drop next) = some taken) :
    next ≤ taken ∧ Names spanNames name taken := by
  cases hrest : spanNames.drop next with
  | nil => simp [hrest, claim] at h
  | cons spanName rest =>
    rw [hrest, claim] at h
    split at h
    · next hsame =>
      obtain rfl := Option.some.inj h
      exact ⟨le_rfl, spanName, getElem?_of_drop_eq_cons hrest, hsame⟩
    · split at h
      · contradiction
      · rw [← drop_succ_of_drop_eq_cons hrest] at h
        obtain ⟨hle, hname⟩ := (findName_drop spanNames name (next + 1)).1 taken h
        exact ⟨by omega, hname⟩

/-- A name that may be left out takes the very next span or none. -/
theorem claim_of_mayBeImplied (himplied : mayBeImplied name = true)
    (h : claim name next (spanNames.drop next) = some taken) : taken = next := by
  cases hrest : spanNames.drop next with
  | nil => simp [hrest, claim] at h
  | cons spanName rest =>
    rw [hrest, claim, if_pos himplied] at h
    split at h
    · exact (Option.some.inj h).symm
    · contradiction

/-- Any other name takes the first span of that name. -/
theorem exists_claim_le (himplied : mayBeImplied name = false) {i : Nat} (hle : next ≤ i)
    (hname : Names spanNames name i) :
    ∃ taken ≤ i, claim name next (spanNames.drop next) = some taken := by
  cases hrest : spanNames.drop next with
  | nil => exact absurd hname (not_names_of_drop_eq_nil hrest hle)
  | cons spanName rest =>
    obtain ⟨taken, htaken, hfound⟩ := (findName_drop spanNames name next).2 i hle hname
    refine ⟨taken, htaken, ?_⟩
    rw [hrest, findName] at hfound
    rw [claim, himplied]
    simpa using hfound

/-! ### All claims -/

/-- A name that may be left out takes nothing in front of a span of another name. -/
theorem claims_cons_of_head? (himplied : mayBeImplied name = true)
    (hhead : ∀ spanName ∈ spanNames.head?, sameName spanName name = false) :
    claims next spanNames (name :: names) = none :: claims next spanNames names := by
  have hclaim : claim name next spanNames = none := by
    cases spanNames with
    | nil => rfl
    | cons spanName spanNames =>
      have hother : sameName spanName name = false := hhead spanName rfl
      rw [claim, hother, if_neg Bool.false_ne_true, if_pos himplied]
  rw [claims, hclaim]

theorem claims_cons_of_claim_eq_none (h : claim name next (spanNames.drop next) = none) :
    claims next (spanNames.drop next) (name :: names) =
      none :: claims next (spanNames.drop next) names := by
  rw [claims, h]

theorem claims_cons_of_claim_eq_some (h : claim name next (spanNames.drop next) = some taken) :
    claims next (spanNames.drop next) (name :: names) =
      some taken :: claims (taken + 1) (spanNames.drop (taken + 1)) names := by
  have hle := (names_of_claim_eq_some h).1
  rw [claims, h]
  dsimp only
  rw [List.drop_drop, show next + (taken + 1 - next) = taken + 1 by omega]

/-- Names take the spans that are theirs one by one. -/
theorem claims_self (names : List String) (next : Nat) :
    claims next names names = (List.range' next names.length).map some := by
  induction names generalizing next with
  | nil => rfl
  | cons name names ih =>
    have hsame : sameName name name = true := by simp [sameName]
    have hclaim : claim name next (name :: names) = some next := by
      rw [claim, if_pos hsame]
    have hdrop : next + 1 - next = 1 := by omega
    rw [claims, hclaim]
    dsimp only
    rw [hdrop, List.drop_one, List.tail_cons, ih, List.length_cons, List.range'_succ, List.map_cons]

/-- What is claimed are spans of the right names in order. -/
theorem claimsFrom_claims (spanNames names : List String) (next : Nat) :
    ClaimsFrom spanNames next names (claims next (spanNames.drop next) names) := by
  induction names generalizing next with
  | nil => exact .nil
  | cons name names ih =>
    cases hclaim : claim name next (spanNames.drop next) with
    | none =>
      rw [claims_cons_of_claim_eq_none hclaim]
      exact .pass (ih next)
    | some taken =>
      rw [claims_cons_of_claim_eq_some hclaim]
      obtain ⟨hle, hname⟩ := names_of_claim_eq_some hclaim
      exact .take hle hname (ih (taken + 1))

/-- A name that no text may leave out takes a span if there is one of its name. -/
theorem isSome_claim_iff (himplied : mayBeImplied name = false) :
    (claim name next (spanNames.drop next)).isSome = true ↔
      ∃ i, next ≤ i ∧ Names spanNames name i := by
  constructor
  · intro h
    obtain ⟨taken, htaken⟩ := Option.isSome_iff_exists.1 h
    exact ⟨taken, names_of_claim_eq_some htaken⟩
  · rintro ⟨i, hle, hname⟩
    obtain ⟨taken, -, htaken⟩ := exists_claim_le himplied hle hname
    rw [htaken, Option.isSome_some]

/-- Names claim after other names what is left behind all that these take. -/
theorem exists_claims_append (spanNames names later : List String) (next : Nat) :
    ∃ after, claims next (spanNames.drop next) (names ++ later) =
        claims next (spanNames.drop next) names ++ claims after (spanNames.drop after) later ∧
      ∀ i, after ≤ i ↔
        next ≤ i ∧ ∀ taken, some taken ∈ claims next (spanNames.drop next) names → taken < i := by
  induction names generalizing next with
  | nil => exact ⟨next, rfl, by simp [claims]⟩
  | cons name names ih =>
    cases hclaim : claim name next (spanNames.drop next) with
    | none =>
      obtain ⟨after, happend, hafter⟩ := ih next
      refine ⟨after, ?_, ?_⟩
      · rw [List.cons_append, claims_cons_of_claim_eq_none hclaim,
          claims_cons_of_claim_eq_none hclaim, happend, List.cons_append]
      · simpa [claims_cons_of_claim_eq_none hclaim] using hafter
    | some first =>
      obtain ⟨after, happend, hafter⟩ := ih (first + 1)
      have hle := (names_of_claim_eq_some hclaim).1
      refine ⟨after, ?_, fun i => ?_⟩
      · rw [List.cons_append, claims_cons_of_claim_eq_some hclaim,
          claims_cons_of_claim_eq_some hclaim, happend, List.cons_append]
      · rw [hafter, claims_cons_of_claim_eq_some hclaim]
        simp only [List.mem_cons, Option.some.injEq, forall_eq_or_imp]
        constructor
        · rintro ⟨hlt, hlater⟩
          exact ⟨by omega, by omega, hlater⟩
        · rintro ⟨-, hlt, hlater⟩
          exact ⟨hlt, hlater⟩

/-- No name equals one that may be left out up to the case of letters alone. -/
def CaseMatters (names : List String) : Prop :=
  ∀ name ∈ names, ∀ implied ∈ impliedNames, sameName name implied = true → name = implied

instance (names : List String) : Decidable (CaseMatters names) :=
  inferInstanceAs (Decidable (∀ name ∈ names, ∀ implied ∈ impliedNames,
    sameName name implied = true → name = implied))

/-- Two names of one span agree up to the case of letters. -/
theorem Names.sameName {other : String} {i : Nat} (hname : Names spanNames name i)
    (hother : Names spanNames other i) : sameName name other = true := by
  obtain ⟨spanName, hi, hsame⟩ := hname
  obtain ⟨spanName', hi', hsame'⟩ := hother
  obtain rfl := Option.some.inj (hi.symm.trans hi')
  simp only [Text.sameName, beq_iff_eq] at hsame hsame' ⊢
  exact hsame.symm.trans hsame'

theorem exists_names_of_mem (h : List.Forall₂ (Names spanNames) names other) {i : Nat}
    (hi : i ∈ other) : ∃ name ∈ names, Names spanNames name i := by
  induction h with
  | nil => simp at hi
  | cons hname _ ih =>
    rcases List.mem_cons.1 hi with rfl | hi
    · exact ⟨_, List.mem_cons_self, hname⟩
    · obtain ⟨later, hmem, hlater⟩ := ih hi
      exact ⟨later, List.mem_cons_of_mem _ hmem, hlater⟩

/-- No name that must be written goes to a span of a name that may be left out. -/
theorem notMem_of_mayBeImplied (hcase : CaseMatters names) (himplied : mayBeImplied name = true)
    {i : Nat} (hname : Names spanNames name i)
    (hother : List.Forall₂ (Names spanNames) (names.filter (!mayBeImplied ·)) other) :
    i ∉ other := by
  intro hi
  obtain ⟨later, hmem, hlater⟩ := exists_names_of_mem hother hi
  obtain ⟨hmem, hwritten⟩ := List.mem_filter.1 hmem
  have himplied' : name ∈ impliedNames := by simpa [mayBeImplied] using himplied
  obtain rfl := hcase later hmem name himplied' (hlater.sameName hname)
  simp [himplied] at hwritten

/-- What the names take that no text may leave out. -/
def writtenClaims (names : List String) (claimed : List (Option Nat)) : List (Option Nat) :=
  ((names.zip claimed).filter (fun pair => !mayBeImplied pair.1)).map Prod.snd

/-- The claims stay ahead of every other pairing of the names that no text may leave out. -/
theorem forall₂_claims_le (hcase : CaseMatters names)
    (hother : IsPairing spanNames (names.filter (!mayBeImplied ·)) other)
    (hnext : ∀ i ∈ other, next ≤ i) :
    List.Forall₂ (fun claimed i => ∃ taken ≤ i, claimed = some taken)
      (writtenClaims names (claims next (spanNames.drop next) names)) other := by
  induction names generalizing next other with
  | nil =>
    cases hother.names
    exact .nil
  | cons name names ih =>
    have hcase' : CaseMatters names := fun later hlater =>
      hcase later (List.mem_cons_of_mem _ hlater)
    cases himplied : mayBeImplied name with
    | true =>
      rw [List.filter_cons_of_neg (by simp [himplied])] at hother
      cases hclaim : claim name next (spanNames.drop next) with
      | none =>
        -- nothing is taken, and the claims go on from the same place
        rw [claims_cons_of_claim_eq_none hclaim]
        simpa [writtenClaims, himplied] using ih hcase' hother hnext
      | some taken =>
        rw [claims_cons_of_claim_eq_some hclaim]
        have hname := (names_of_claim_eq_some hclaim).2
        -- the very next span is taken, to which the other pairing has no name
        have hafter : ∀ i ∈ other, taken + 1 ≤ i := by
          intro i hi
          have hle := hnext i hi
          have htaken := claim_of_mayBeImplied himplied hclaim
          have hne : i ≠ taken := fun heq =>
            notMem_of_mayBeImplied hcase' himplied hname hother.names (heq ▸ hi)
          omega
        simpa [writtenClaims, himplied] using ih hcase' hother hafter
    | false =>
      rw [List.filter_cons_of_pos (by simp [himplied])] at hother
      obtain ⟨hincreasing, hnames⟩ := hother
      cases hnames with
      | cons hname hrest =>
        rename_i i rest
        obtain ⟨taken, hle, hclaim⟩ := exists_claim_le himplied (hnext i (by simp)) hname
        obtain ⟨hlater, hincreasing⟩ := List.pairwise_cons.1 hincreasing
        rw [claims_cons_of_claim_eq_some hclaim]
        -- the claim is not behind the other pairing, so neither are the claims after it
        have hafter : ∀ j ∈ rest, taken + 1 ≤ j := fun j hj =>
          hle.trans_lt (hlater j hj)
        have hrest := ih hcase' ⟨hincreasing, hrest⟩ hafter
        simpa [writtenClaims, himplied] using List.Forall₂.cons ⟨taken, hle, rfl⟩ hrest

/-! ### The leftmost pairing -/

/-- Names have a pairing if they are a subsequence of the names of the spans, up to the case of
letters. -/
theorem exists_isPairing
    (h : (names.map (lower ·.toList)).Sublist (spanNames.map (lower ·.toList))) :
    ∃ taken, IsPairing spanNames names taken := by
  obtain ⟨places, hplaces, hincreasing⟩ := List.sublist_eq_map_getElem h
  refine ⟨places.map (·.val), List.pairwise_map.2 hincreasing, List.forall₂_map_right_iff.2 ?_⟩
  rw [← List.forall₂_eq_eq_eq, List.forall₂_map_left_iff, List.forall₂_map_right_iff] at hplaces
  refine hplaces.imp fun name place heq => ?_
  have hlt : place.val < spanNames.length := by simpa using place.isLt
  refine ⟨spanNames[place.val], List.getElem?_eq_getElem hlt, ?_⟩
  simpa [Text.sameName] using heq.symm

namespace ClaimsFrom

variable {claimed : List (Option Nat)} {taken : List Nat}

/-- What some of the names take comes in order. -/
theorem increasing_of_writtenClaims (h : ClaimsFrom spanNames next names claimed)
    (htaken : writtenClaims names claimed = taken.map some) : taken.Pairwise (· < ·) := by
  -- they are among all claims, which come in order
  have hsublist : (taken.map some).Sublist claimed := by
    conv_rhs => rw [← List.map_snd_zip h.length_eq.le]
    rw [← htaken]
    exact List.filter_sublist.map Prod.snd
  refine h.increasing.sublist ?_
  simpa using hsublist.filterMap id

/-- Names that no text may leave out go to spans of their names. -/
theorem names_of_writtenClaims (h : ClaimsFrom spanNames next names claimed)
    (htaken : writtenClaims names claimed = taken.map some) :
    List.Forall₂ (Names spanNames) (names.filter (!mayBeImplied ·)) taken := by
  let written := (names.zip claimed).filter (fun pair => !mayBeImplied pair.1)
  have hnames : written.map Prod.fst = names.filter (!mayBeImplied ·) := by
    conv_rhs => rw [← List.map_fst_zip h.length_eq.ge, List.filter_map]
    rfl
  have hwritten : List.Forall₂ (fun name claimed => ∀ i ∈ claimed, Names spanNames name i)
      (written.map Prod.fst) (written.map Prod.snd) := by
    rw [List.forall₂_map_left_iff, List.forall₂_map_right_iff, List.forall₂_same]
    rintro ⟨name, claimed⟩ hmem i rfl
    exact h.names_of_mem name i (List.mem_filter.1 hmem).1
  rw [hnames, show written.map Prod.snd = taken.map some from htaken,
    List.forall₂_map_right_iff] at hwritten
  exact hwritten.imp fun name i hname => hname i rfl

end ClaimsFrom

theorem exists_eq_map_some {claimed : List (Option Nat)}
    (h : List.Forall₂ (fun claimed i => ∃ taken ≤ i, claimed = some taken) claimed other) :
    ∃ taken : List Nat, claimed = taken.map some := by
  induction h with
  | nil => exact ⟨[], rfl⟩
  | cons hhead _ ih =>
    obtain ⟨first, -, rfl⟩ := hhead
    obtain ⟨rest, rfl⟩ := ih
    exact ⟨first :: rest, rfl⟩

/-- If the names that no text may leave out have any pairing, each of them takes a span, and what
they take is a pairing that is nowhere to the right of another one. -/
theorem exists_leftmost (hcase : CaseMatters names)
    (hother : IsPairing spanNames (names.filter (!mayBeImplied ·)) other) :
    ∃ taken, writtenClaims names (claims 0 spanNames names) = taken.map some ∧
      IsPairing spanNames (names.filter (!mayBeImplied ·)) taken ∧
      ∀ other, IsPairing spanNames (names.filter (!mayBeImplied ·)) other →
        List.Forall₂ (· ≤ ·) taken other := by
  have hleast (other : List Nat)
      (hother : IsPairing spanNames (names.filter (!mayBeImplied ·)) other) :
      List.Forall₂ (fun claimed i => ∃ taken ≤ i, claimed = some taken)
        (writtenClaims names (claims 0 spanNames names)) other := by
    rw [← List.drop_zero (l := spanNames)]
    exact forall₂_claims_le hcase hother fun i _ => i.zero_le
  have hclaims : ClaimsFrom spanNames 0 names (claims 0 spanNames names) :=
    claimsFrom_claims spanNames names 0
  obtain ⟨taken, htaken⟩ := exists_eq_map_some (hleast other hother)
  refine ⟨taken, htaken, ⟨hclaims.increasing_of_writtenClaims htaken,
    hclaims.names_of_writtenClaims htaken⟩, fun other hother => ?_⟩
  have h := hleast other hother
  rw [htaken, List.forall₂_map_left_iff] at h
  refine h.imp fun first i hle => ?_
  obtain ⟨taken, hle, heq⟩ := hle
  exact Option.some.inj heq ▸ hle

end ElementLint.Span.Pairing
