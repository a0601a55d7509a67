import ElementLint.Proofs.Text.Pieces
import ElementLint.Selector.Parser

/-!
# The grammar of selectors

This module says how the parts of a selector are written: identifiers (`IsIdentifier`), values
(`IsValue`), attribute tests (`IsTest`), components (`IsComponent`, `Extends`), compound selectors
(`IsCompound`) and combinators (`IsCombinator`).

The readers take as much of a text as they can. What they have read stands in the text, and they
read it wherever it stands, as long as what follows does not go on with it (`EndsWord`,
`EndsParts`): `identifier?_eq_some_iff`, `value?_eq_some_iff`, `attributeTest?_eq_some_iff`,
`components?_of_extends`, `compound?_eq_some_iff`.
-/

namespace ElementLint.Selector

open Text

/-! ### How selectors are written -/

/-- A word of letters, digits, hyphens and underscores. -/
structure IsIdentifier (name : String) : Prop where
  ne_nil : name.toList ≠ []
  inWord : ∀ c ∈ name.toList, inIdentifier c = true

/-- A text of blanks. -/
def AllBlank (text : List Char) : Prop :=
  ∀ c ∈ text, isBlank c = true

/-- A value of an attribute: an identifier, or any text in quotes that does not hold the quote. -/
inductive IsValue : List Char → String → Prop
  | identifier {value : String} : IsIdentifier value → IsValue value.toList value
  | quoted {quote : Char} {value : String} : quote = '"' ∨ quote = '\'' → quote ∉ value.toList →
      IsValue (quote :: value.toList ++ [quote]) value

/-- A test of an attribute, in brackets and with blanks wherever they are allowed. -/
inductive IsTest : List Char → AttributeTest → Prop
  | present {before after : List Char} {name : String} :
      AllBlank before → IsIdentifier name → AllBlank after →
      IsTest ('[' :: before ++ name.toList ++ after ++ [']']) (.present name)
  | equals {before middle middle' after written : List Char} {name value : String} :
      AllBlank before → IsIdentifier name → AllBlank middle → AllBlank middle' →
      IsValue written value → AllBlank after →
      IsTest ('[' :: before ++ name.toList ++ middle ++ '=' :: middle' ++ written ++ after ++ [']'])
        (.equals name value)

/-- A component of a compound selector: a class, an id if there is none yet, or a test. -/
inductive IsComponent (compound : Compound) : List Char → Compound → Prop
  | inClass {name : String} : IsIdentifier name →
      IsComponent compound ('.' :: name.toList)
        { compound with classes := compound.classes ++ [name] }
  | hasId {name : String} : compound.id = none → IsIdentifier name →
      IsComponent compound ('#' :: name.toList) { compound with id := some name }
  | hasAttribute {text : List Char} {test : AttributeTest} : IsTest text test →
      IsComponent compound text { compound with attributes := compound.attributes ++ [test] }

/-- Any number of components, which are added to a compound selector. -/
inductive Extends : Compound → List Char → Compound → Prop
  | done {compound : Compound} : Extends compound [] compound
  | step {compound middle result : Compound} {component text : List Char} :
      IsComponent compound component middle → Extends middle text result →
      Extends compound (component ++ text) result

/-- A compound selector: an asterisk or the name of an element, and components. Without the first
there is a component at least. -/
inductive IsCompound : List Char → Compound → Prop
  | universal {text : List Char} {compound : Compound} :
      Extends {} text compound → IsCompound ('*' :: text) compound
  | named {name : String} {text : List Char} {compound : Compound} :
      IsIdentifier name → Extends { element := some name } text compound →
      IsCompound (name.toList ++ text) compound
  | unnamed {text : List Char} {compound : Compound} :
      text ≠ [] → Extends {} text compound → IsCompound text compound

/-- A combinator: a sign with blanks around it, or blanks alone. -/
inductive IsCombinator : List Char → Combinator → Prop
  | descendant {text : List Char} : text ≠ [] → AllBlank text → IsCombinator text .descendant
  | signed {before after : List Char} {sign : Char} {combinator : Combinator} :
      (sign, combinator) ∈ [('>', .child), ('+', .adjacent), ('~', .sibling)] →
      AllBlank before → AllBlank after → IsCombinator (before ++ sign :: after) combinator

/-- A word at the end of a text does not go on in what follows. -/
def EndsWord (read rest : List Char) : Prop :=
  ∀ c ∈ rest.head?, inIdentifier c = true → ∀ last ∈ read.getLast?, inIdentifier last = false

/-- No component starts in a text. -/
def EndsParts (rest : List Char) : Prop :=
  ∀ c ∈ rest.head?, c ≠ '.' ∧ c ≠ '#' ∧ c ≠ '['

variable {text read rest : List Char} {name value : String} {test : AttributeTest}
  {compound result : Compound} {c : Char}

/-! ### Characters -/

/-- No blank belongs to a word. -/
theorem inIdentifier_of_isBlank (h : isBlank c = true) : inIdentifier c = false := by
  have hblanks : ∀ n ∈ [9, 10, 11, 12, 13, 0x20, 0x85, 0xA0, 0x1680, 0x2000, 0x2001, 0x2002,
      0x2003, 0x2004, 0x2005, 0x2006, 0x2007, 0x2008, 0x2009, 0x200A, 0x2028, 0x2029, 0x202F,
      0x205F, 0x3000], inIdentifier (Char.ofNat n) = false := by
    decide +kernel
  rw [← Char.ofNat_toNat c]
  refine hblanks c.toNat ?_
  simp only [isBlank, Bool.or_eq_true, Bool.and_eq_true, decide_eq_true_eq, beq_iff_eq] at h
  simp only [List.mem_cons, List.not_mem_nil, or_false]
  omega

theorem isBlank_of_inIdentifier (h : inIdentifier c = true) : isBlank c = false := by
  refine Bool.eq_false_iff.2 fun hblank => ?_
  rw [inIdentifier_of_isBlank hblank] at h
  contradiction

/-- The signs of selectors are no blanks and do not belong to words. -/
theorem isBlank_sign_and_inIdentifier_sign :
    ∀ c ∈ ['*', '.', '#', '[', ']', '=', '"', '\'', '>', '+', '~'],
      isBlank c = false ∧ inIdentifier c = false := by
  simp only [List.mem_cons, List.not_mem_nil, or_false]
  rintro c (rfl | rfl | rfl | rfl | rfl | rfl | rfl | rfl | rfl | rfl | rfl) <;>
    exact ⟨by decide, by decide⟩

@[simp]
theorem isBlank_sign (h : c ∈ ['*', '.', '#', '[', ']', '=', '"', '\'', '>', '+', '~']) :
    isBlank c = false :=
  (isBlank_sign_and_inIdentifier_sign c h).1

@[simp]
theorem inIdentifier_sign (h : c ∈ ['*', '.', '#', '[', ']', '=', '"', '\'', '>', '+', '~']) :
    inIdentifier c = false :=
  (isBlank_sign_and_inIdentifier_sign c h).2

theorem inIdentifier_quote {quote : Char} (h : quote = '"' ∨ quote = '\'') :
    inIdentifier quote = false := by
  rcases h with rfl | rfl <;> simp

/-- No word goes on after blanks and a character that does not belong to a word. -/
theorem inIdentifier_head?_blanks {blanks : List Char} (hblanks : AllBlank blanks)
    (hc : inIdentifier c = false) :
    ∀ d ∈ (blanks ++ c :: rest).head?, inIdentifier d = false := by
  intro d hd
  cases blanks with
  | nil =>
    obtain rfl : c = d := Option.some.inj hd
    exact hc
  | cons first _ =>
    obtain rfl : first = d := Option.some.inj hd
    exact inIdentifier_of_isBlank (hblanks first List.mem_cons_self)

theorem dropWhile_blanks {blanks : List Char} (hblanks : AllBlank blanks)
    (hc : isBlank c = false) : (blanks ++ c :: rest).dropWhile isBlank = c :: rest :=
  dropWhile_append_eq hblanks (by simpa using hc)

/-- What is left of a text after the blanks at its start stands after them. -/
theorem exists_blanks_append (h : text.dropWhile isBlank = rest) :
    ∃ blanks, AllBlank blanks ∧ text = blanks ++ rest :=
  ⟨text.takeWhile isBlank, fun _ hc => of_mem_takeWhile hc, by
    rw [← h, List.takeWhile_append_dropWhile]⟩

/-! ### Identifiers -/

/-- An identifier starts with a character of a word. -/
theorem IsIdentifier.exists_cons (h : IsIdentifier name) :
    ∃ first more, name.toList = first :: more ∧ inIdentifier first = true := by
  obtain ⟨first, more, hname⟩ := List.exists_cons_of_ne_nil h.ne_nil
  exact ⟨first, more, hname, h.inWord first (by rw [hname]; exact List.mem_cons_self)⟩

theorem IsIdentifier.isBlank_head?_append (h : IsIdentifier name) :
    ∀ c ∈ (name.toList ++ rest).head?, isBlank c = false := by
  obtain ⟨first, more, hname, hfirst⟩ := h.exists_cons
  simpa [hname] using isBlank_of_inIdentifier hfirst

/-- A text that ends in an identifier ends as a word unless the word goes on. -/
theorem IsIdentifier.endsWord_append (h : IsIdentifier name) (before : List Char) :
    EndsWord (before ++ name.toList) rest ↔ ∀ c ∈ rest.head?, inIdentifier c = false := by
  have hlast : (before ++ name.toList).getLast? = some (name.toList.getLast h.ne_nil) := by
    rw [List.getLast?_append, List.getLast?_eq_some_getLast h.ne_nil, Option.some_or]
  have hword : inIdentifier (name.toList.getLast h.ne_nil) = true :=
    h.inWord _ (List.getLast_mem h.ne_nil)
  simp [EndsWord, hlast, hword]

/-- A text ends as a word if its last character does not belong to a word. -/
theorem endsWord_concat (h : inIdentifier c = false) : EndsWord (read ++ [c]) rest := by
  simp [EndsWord, h]

theorem endsWord_asterisk (rest : List Char) : EndsWord ['*'] rest := by
  simp [EndsWord]

/-- A text ends as a word if what follows does not start with a character of a word. -/
theorem endsWord_of_head? (h : ∀ c ∈ rest.head?, inIdentifier c = false) : EndsWord read rest := by
  intro c hc hword
  rw [h c hc] at hword
  contradiction

/-- An identifier is read up to the end of the word. -/
theorem identifier?_eq_some_iff :
    identifier? text = some (name, rest) ↔
      text = name.toList ++ rest ∧ IsIdentifier name ∧
        ∀ c ∈ rest.head?, inIdentifier c = false := by
  constructor
  · intro h
    rw [identifier?] at h
    split at h
    · contradiction
    · next hne =>
      obtain ⟨rfl, rfl⟩ := Prod.mk.inj (Option.some.inj h)
      rw [String.toList_ofList, List.takeWhile_append_dropWhile]
      refine ⟨rfl, ⟨?_, ?_⟩, fun c hc => of_mem_head?_dropWhile hc⟩
      · simpa using hne
      · rw [String.toList_ofList]
        exact fun c hc => of_mem_takeWhile hc
  · rintro ⟨rfl, hname, hrest⟩
    rw [identifier?]
    simp [takeWhile_append_eq hname.inWord hrest, dropWhile_append_eq hname.inWord hrest,
      hname.ne_nil]

/-- Nothing is read where no word starts. -/
theorem identifier?_eq_none (h : ∀ c ∈ text.head?, inIdentifier c = false) :
    identifier? text = none := by
  simp [identifier?, takeWhile_eq_nil_of_head? h]

/-! ### Values -/

/-- A value starts with a character of a word or with a quote. -/
theorem IsValue.exists_cons (h : IsValue read value) :
    ∃ first more, read = first :: more ∧
      (inIdentifier first = true ∨ first = '"' ∨ first = '\'') := by
  cases h with
  | identifier h =>
    obtain ⟨first, more, hname, hfirst⟩ := h.exists_cons
    exact ⟨first, more, hname, .inl hfirst⟩
  | quoted hquote _ => exact ⟨_, _, rfl, .inr hquote⟩

theorem IsValue.isBlank_head?_append (h : IsValue read value) :
    ∀ c ∈ (read ++ rest).head?, isBlank c = false := by
  obtain ⟨first, more, rfl, hfirst | rfl | rfl⟩ := h.exists_cons
  · simpa using isBlank_of_inIdentifier hfirst
  · simp
  · simp

/-- A value is read up to its quote or to the end of its word. -/
theorem value?_eq_some_iff :
    value? text = some (value, rest) ↔
      ∃ read, text = read ++ rest ∧ IsValue read value ∧ EndsWord read rest := by
  constructor
  · intro h
    cases text with
    | nil => contradiction
    | cons quote text =>
      rw [value?] at h
      split at h
      · next hquote =>
        have htext := List.takeWhile_append_dropWhile (p := (· != quote)) (l := text)
        split at h
        · contradiction
        · next closing after hafter =>
          obtain ⟨rfl, rfl⟩ := Prod.mk.inj (Option.some.inj h)
          -- the text is left at the first character that is not passed, which is the quote again
          obtain rfl : closing = quote := by
            have hclosing : closing ∈ (text.dropWhile (· != quote)).head? := by rw [hafter]; rfl
            simpa using of_mem_head?_dropWhile hclosing
          have hmem : closing ∉ text.takeWhile (· != closing) := fun hmem => by
            have := of_mem_takeWhile hmem
            simp at this
          refine ⟨closing :: text.takeWhile (· != closing) ++ [closing], ?_, ?_,
            endsWord_concat (inIdentifier_quote hquote)⟩
          · rw [hafter] at htext
            simp [htext]
          · have hvalue := @IsValue.quoted closing (String.ofList (text.takeWhile (· != closing)))
              hquote (by rwa [String.toList_ofList])
            rwa [String.toList_ofList] at hvalue
      · obtain ⟨htext, hname, hend⟩ := identifier?_eq_some_iff.1 h
        exact ⟨value.toList, htext, .identifier hname, endsWord_of_head? hend⟩
  · rintro ⟨read, rfl, hvalue, hend⟩
    cases hvalue with
    | identifier hname =>
      have hrest := (hname.endsWord_append []).1 hend
      obtain ⟨first, more, htext, hfirst⟩ := hname.exists_cons
      have hread := identifier?_eq_some_iff.2 ⟨rfl, hname, hrest⟩
      rw [htext, List.cons_append] at hread ⊢
      rw [value?, if_neg, hread]
      -- a word does not start with a quote, so it is read as a word
      intro hquote
      rw [inIdentifier_quote hquote] at hfirst
      contradiction
    | @quoted quote _ hquote hmem =>
      have hrun : ∀ c ∈ value.toList, (c != quote) = true := fun c hc => by
        simpa using fun heq : c = quote => hmem (heq ▸ hc)
      have hstop : ∀ c ∈ (quote :: rest).head?, (c != quote) = false := by simp
      simp only [List.cons_append, List.append_assoc, List.nil_append, value?, if_pos hquote,
        takeWhile_append_eq hrun hstop, dropWhile_append_eq hrun hstop, String.ofList_toList]

/-! ### Tests of attributes -/

/-- A test starts with its opening bracket. -/
theorem IsTest.exists_cons (h : IsTest read test) : ∃ more, read = '[' :: more := by
  cases h <;> exact ⟨_, rfl⟩

theorem IsTest.endsWord (h : IsTest read test) : EndsWord read rest := by
  cases h <;> exact endsWord_concat (by simp)

/-- A test is read up to its closing bracket. -/
theorem attributeTest?_eq_some_iff :
    attributeTest? text = some (test, rest) ↔
      ∃ read, '[' :: text = read ++ rest ∧ IsTest read test := by
  constructor
  · intro h
    -- the blanks are put back where the reader has passed them, one run for each gap of the test
    obtain ⟨before, hbefore, htext⟩ := exists_blanks_append (rfl : text.dropWhile isBlank = _)
    rw [attributeTest?] at h
    split at h
    · contradiction
    · next name afterName hread =>
      obtain ⟨hdropped, hname, -⟩ := identifier?_eq_some_iff.1 hread
      rw [hdropped] at htext
      split at h
      · next hclose =>
        obtain ⟨rfl, rfl⟩ := Prod.mk.inj (Option.some.inj h)
        obtain ⟨after, hafter, rfl⟩ := exists_blanks_append hclose
        exact ⟨_, by simp [htext], .present hbefore hname hafter⟩
      · next afterEquals hequals =>
        obtain ⟨middle, hmiddle, rfl⟩ := exists_blanks_append hequals
        split at h
        · contradiction
        · next value afterValue hread =>
          obtain ⟨middle', hmiddle', hafterEquals⟩ :=
            exists_blanks_append (rfl : afterEquals.dropWhile isBlank = _)
          obtain ⟨written, hwritten, hvalue, -⟩ := value?_eq_some_iff.1 hread
          split at h
          · next hclose =>
            obtain ⟨rfl, rfl⟩ := Prod.mk.inj (Option.some.inj h)
            obtain ⟨after, hafter, rfl⟩ := exists_blanks_append hclose
            rw [hwritten] at hafterEquals
            exact ⟨_, by simp [htext, hafterEquals],
              .equals hbefore hname hmiddle hmiddle' hvalue hafter⟩
          · contradiction
      · contradiction
  · rintro ⟨read, htext, htest⟩
    cases htest with
    | @present before after name hbefore hname hafter =>
      obtain rfl : text = before ++ (name.toList ++ (after ++ ']' :: rest)) := by simpa using htext
      -- a name ends before a blank and before the bracket
      have hword : ∀ c ∈ (after ++ ']' :: rest).head?, inIdentifier c = false :=
        inIdentifier_head?_blanks hafter (by simp)
      rw [attributeTest?, dropWhile_append_eq hbefore hname.isBlank_head?_append,
        identifier?_eq_some_iff.2 ⟨rfl, hname, hword⟩]
      simp [dropWhile_blanks hafter]
    | @equals before middle middle' after written name value hbefore hname hmiddle hmiddle' hvalue
        hafter =>
      obtain rfl : text = before ++ (name.toList ++ (middle ++ '=' :: (middle' ++
          (written ++ (after ++ ']' :: rest))))) := by simpa using htext
      have hword : ∀ c ∈ (middle ++ '=' :: (middle' ++ (written ++ (after ++ ']' :: rest)))).head?,
          inIdentifier c = false :=
        inIdentifier_head?_blanks hmiddle (by simp)
      have hend : ∀ c ∈ (after ++ ']' :: rest).head?, inIdentifier c = false :=
        inIdentifier_head?_blanks hafter (by simp)
      rw [attributeTest?, dropWhile_append_eq hbefore hname.isBlank_head?_append,
        identifier?_eq_some_iff.2 ⟨rfl, hname, hword⟩]
      simp only [dropWhile_blanks hmiddle (c := '=') (by simp)]
      rw [dropWhile_append_eq hmiddle' hvalue.isBlank_head?_append,
        value?_eq_some_iff.2 ⟨written, rfl, hvalue, endsWord_of_head? hend⟩]
      simp [dropWhile_blanks hafter]

/-! ### Components -/

/-- A component starts with its sign. -/
theorem IsComponent.exists_cons (h : IsComponent compound read result) :
    ∃ first more, read = first :: more ∧ (first = '.' ∨ first = '#' ∨ first = '[') := by
  cases h with
  | inClass _ => exact ⟨_, _, rfl, .inl rfl⟩
  | hasId _ _ => exact ⟨_, _, rfl, .inr (.inl rfl)⟩
  | hasAttribute h => cases h <;> exact ⟨_, _, rfl, .inr (.inr rfl)⟩

/-- A component is read where it ends. -/
theorem component?_eq_some_some_iff :
    component? compound text = some (some (result, rest)) ↔
      ∃ read, text = read ++ rest ∧ IsComponent compound read result ∧ EndsWord read rest := by
  constructor
  · intro h
    rw [component?.eq_def] at h
    split at h
    · next text =>
      obtain ⟨⟨name, _⟩, hname, heq⟩ := Option.map_eq_some_iff.1 h
      obtain ⟨rfl, rfl⟩ := Prod.mk.inj (Option.some.inj heq)
      obtain ⟨rfl, hname, hend⟩ := identifier?_eq_some_iff.1 hname
      exact ⟨'.' :: name.toList, rfl, .inClass hname, endsWord_of_head? hend⟩
    · next text =>
      split at h
      · contradiction
      -- a second id is refused, so that there is none yet
      · next hid =>
        obtain ⟨⟨name, _⟩, hname, heq⟩ := Option.map_eq_some_iff.1 h
        obtain ⟨rfl, rfl⟩ := Prod.mk.inj (Option.some.inj heq)
        obtain ⟨rfl, hname, hend⟩ := identifier?_eq_some_iff.1 hname
        exact ⟨'#' :: name.toList, rfl, .hasId (by simpa using hid) hname, endsWord_of_head? hend⟩
    · next text =>
      obtain ⟨⟨test, _⟩, htest, heq⟩ := Option.map_eq_some_iff.1 h
      obtain ⟨rfl, rfl⟩ := Prod.mk.inj (Option.some.inj heq)
      obtain ⟨read, hread, htest⟩ := attributeTest?_eq_some_iff.1 htest
      exact ⟨read, hread, .hasAttribute htest, htest.endsWord⟩
    · simp at h
  · rintro ⟨read, rfl, hcomponent, hend⟩
    cases hcomponent with
    | @inClass name hname =>
      have hrest := (hname.endsWord_append ['.']).1 hend
      simp [component?, identifier?_eq_some_iff.2 ⟨rfl, hname, hrest⟩]
    | @hasId name hid hname =>
      have hrest := (hname.endsWord_append ['#']).1 hend
      simp [component?, hid, identifier?_eq_some_iff.2 ⟨rfl, hname, hrest⟩]
    | @hasAttribute _ test htest =>
      obtain ⟨more, rfl⟩ := htest.exists_cons
      have hread : attributeTest? (more ++ rest) = some (test, rest) :=
        attributeTest?_eq_some_iff.2 ⟨_, rfl, htest⟩
      simp [component?, hread]

/-- No component is read where none starts. -/
theorem component?_eq_some_none_iff : component? compound text = some none ↔ EndsParts text := by
  rw [component?.eq_def]
  split
  · simp [EndsParts]
  · split <;> simp [EndsParts]
  · simp [EndsParts]
  · next hclass hid htest =>
    refine iff_of_true rfl fun c hc => ?_
    obtain ⟨rest, rfl⟩ := List.head?_eq_some_iff.1 hc
    exact ⟨fun h => hclass rest (h ▸ rfl), fun h => hid rest (h ▸ rfl),
      fun h => htest rest (h ▸ rfl)⟩

/-- Two parts end as a word if each of them does. -/
theorem EndsWord.append {more : List Char} (hread : EndsWord read (more ++ rest))
    (hmore : EndsWord more rest) : EndsWord (read ++ more) rest := by
  cases more with
  | nil => simpa using hread
  | cons first more =>
    intro c hc hword last hlast
    rw [List.getLast?_append, List.getLast?_cons, Option.some_or, ← List.getLast?_cons] at hlast
    exact hmore c hc hword last hlast

/-- The second of two parts ends as a word if both together do. -/
theorem EndsWord.of_append {more : List Char} (h : EndsWord (read ++ more) rest) :
    EndsWord more rest := by
  intro c hc hword last hlast
  refine h c hc hword last ?_
  rw [List.getLast?_append, Option.mem_def.1 hlast]
  rfl

/-- What components add starts with their sign. -/
theorem Extends.of_mem_head? (h : Extends compound read result) :
    ∀ c ∈ read.head?, c = '.' ∨ c = '#' ∨ c = '[' := by
  cases h with
  | done => simp
  | step hcomponent _ =>
    obtain ⟨first, more, rfl, hfirst⟩ := hcomponent.exists_cons
    simpa using hfirst

/-- The parts before components end as a word if all together do. -/
theorem Extends.endsWord_left {more : List Char} (h : Extends compound more result)
    (hend : EndsWord (read ++ more) rest) : EndsWord read (more ++ rest) := by
  cases hmore : more with
  | nil => simpa [hmore] using hend
  | cons first _ =>
    refine endsWord_of_head? ?_
    rcases h.of_mem_head? first (by rw [hmore]; rfl) with rfl | rfl | rfl <;> simp

/-- Components that stand in a text are read one by one, and then what follows them. -/
theorem exists_components?_append (h : Extends compound read result) (hend : EndsWord read rest)
    {count : Nat} (hcount : (read ++ rest).length ≤ count) :
    ∃ left, rest.length ≤ left ∧
      components? count compound (read ++ rest) = components? left result rest := by
  induction h generalizing count with
  | done => exact ⟨count, hcount, rfl⟩
  | @step compound middle result component more hcomponent hextends ih =>
    have hfirst := component?_eq_some_some_iff.2 ⟨component, (List.append_assoc ..),
      hcomponent, hextends.endsWord_left hend⟩
    obtain ⟨_, _, rfl, -⟩ := hcomponent.exists_cons
    cases count with
    | zero => simp at hcount
    | succ count =>
      rw [components?, hfirst]
      exact ih hend.of_append (by simp at hcount ⊢; omega)

/-- Components that stand in a text are all read. -/
theorem components?_of_extends (h : Extends compound read result) (hparts : EndsParts rest)
    (hend : EndsWord read rest) {count : Nat} (hcount : (read ++ rest).length ≤ count) :
    components? count compound (read ++ rest) = some (result, rest) := by
  obtain ⟨left, -, hleft⟩ := exists_components?_append h hend hcount
  rw [hleft]
  cases left with
  | zero => rfl
  | succ left => simp [components?, component?_eq_some_none_iff.2 hparts]

/-- What is read as components stands in the text, and none follows. -/
theorem exists_extends_of_components? {count : Nat} (hcount : text.length ≤ count)
    (h : components? count compound text = some (result, rest)) :
    ∃ read, text = read ++ rest ∧ Extends compound read result ∧ EndsParts rest ∧
      EndsWord read rest := by
  induction count generalizing compound text with
  | zero =>
    obtain ⟨rfl, rfl⟩ := Prod.mk.inj (Option.some.inj h)
    obtain rfl := List.eq_nil_of_length_eq_zero (Nat.le_zero.1 hcount)
    exact ⟨[], rfl, .done, by simp [EndsParts], by simp [EndsWord]⟩
  | succ count ih =>
    rw [components?] at h
    split at h
    · contradiction
    · next hnone =>
      obtain ⟨rfl, rfl⟩ := Prod.mk.inj (Option.some.inj h)
      exact ⟨[], rfl, .done, component?_eq_some_none_iff.1 hnone, by simp [EndsWord]⟩
    · next middle after hfirst =>
      obtain ⟨component, rfl, hcomponent, hword⟩ := component?_eq_some_some_iff.1 hfirst
      obtain ⟨_, _, rfl, -⟩ := hcomponent.exists_cons
      obtain ⟨read, rfl, hextends, hparts, hend⟩ := ih (by simp at hcount; omega) h
      exact ⟨_, (List.append_assoc ..).symm, .step hcomponent hextends, hparts, hword.append hend⟩

/-! ### Compound selectors -/

theorem compound?_of_ne_asterisk (h : ∀ c ∈ text.head?, c ≠ '*') :
    compound? text =
      match identifier? text with
      | some (name, rest) => components? rest.length { element := some name } rest
      | none =>
        match components? text.length {} text with
        | none => none
        | some (compound, rest) =>
          if rest.length = text.length then none else some (compound, rest) := by
  unfold compound?
  split
  · simp at h
  · rfl

/-- Behind the name of an element its components are read. -/
theorem compound?_named (hname : IsIdentifier name)
    (hword : ∀ c ∈ rest.head?, inIdentifier c = false) :
    compound? (name.toList ++ rest) = components? rest.length { element := some name } rest := by
  have hstar : ∀ c ∈ (name.toList ++ rest).head?, c ≠ '*' := by
    obtain ⟨first, _, hfirst, hword⟩ := hname.exists_cons
    simp only [hfirst, List.cons_append, List.head?_cons, Option.mem_some_iff]
    rintro c rfl rfl
    simp at hword
  rw [compound?_of_ne_asterisk hstar, identifier?_eq_some_iff.2 ⟨rfl, hname, hword⟩]

/-- Without a name there must be components. -/
theorem compound?_unnamed (h : ∀ c ∈ text.head?, c = '.' ∨ c = '#' ∨ c = '[') :
    compound? text =
      match components? text.length {} text with
      | none => none
      | some (compound, rest) =>
        if rest.length = text.length then none else some (compound, rest) := by
  have hstar : ∀ c ∈ text.head?, c ≠ '*' := fun c hc => by
    rcases h c hc with rfl | rfl | rfl <;> simp
  have hword : ∀ c ∈ text.head?, inIdentifier c = false := fun c hc => by
    rcases h c hc with rfl | rfl | rfl <;> simp
  rw [compound?_of_ne_asterisk hstar, identifier?_eq_none hword]

/-- What is read as a compound selector stands in the text, and it is one. -/
theorem exists_isCompound_of_compound? (h : compound? text = some (compound, rest)) :
    ∃ read, text = read ++ rest ∧ IsCompound read compound ∧ EndsParts rest ∧
      EndsWord read rest := by
  by_cases hstar : ∀ c ∈ text.head?, c ≠ '*'
  · rw [compound?_of_ne_asterisk hstar] at h
    split at h
    · next name after hread =>
      obtain ⟨rfl, hname, hword⟩ := identifier?_eq_some_iff.1 hread
      obtain ⟨read, rfl, hextends, hparts, hend⟩ := exists_extends_of_components? (Nat.le_refl _) h
      exact ⟨name.toList ++ read, (List.append_assoc ..).symm, .named hname hextends, hparts,
        (endsWord_of_head? hword).append hend⟩
    · split at h
      · contradiction
      · next hread =>
        split at h
        · contradiction
        -- without a name something has to have been read
        · next hlength =>
          obtain ⟨rfl, rfl⟩ := Prod.mk.inj (Option.some.inj h)
          obtain ⟨read, rfl, hextends, hparts, hend⟩ :=
            exists_extends_of_components? (Nat.le_refl _) hread
          refine ⟨read, rfl, .unnamed ?_ hextends, hparts, hend⟩
          rintro rfl
          exact hlength rfl
  · obtain ⟨more, rfl⟩ : ∃ more, text = '*' :: more := by
      simpa [List.head?_eq_some_iff] using hstar
    obtain ⟨read, rfl, hextends, hparts, hend⟩ := exists_extends_of_components? (Nat.le_refl _) h
    exact ⟨'*' :: read, rfl, .universal hextends, hparts,
      (endsWord_asterisk _).append hend⟩

/-- A compound selector that stands in a text is read, up to the end of its word and as long as no
component follows. -/
theorem compound?_of_isCompound (h : IsCompound read compound) (hparts : EndsParts rest)
    (hend : EndsWord read rest) : compound? (read ++ rest) = some (compound, rest) := by
  cases h with
  | @universal more _ hextends =>
    have hmore : EndsWord (['*'] ++ more) rest := hend
    exact components?_of_extends hextends hparts hmore.of_append (Nat.le_refl _)
  | @named name more _ hname hextends =>
    have hword := (hname.endsWord_append []).1 (hextends.endsWord_left hend)
    rw [List.append_assoc, compound?_named hname hword]
    exact components?_of_extends hextends hparts hend.of_append (Nat.le_refl _)
  | unnamed hne hextends =>
    obtain ⟨first, more, rfl⟩ := List.exists_cons_of_ne_nil hne
    rw [compound?_unnamed (by simpa using hextends.of_mem_head? first rfl),
      components?_of_extends hextends hparts hend (Nat.le_refl _)]
    exact if_neg (by simp; omega)

/-- A compound selector is read as far as its components and its last word go. -/
theorem compound?_eq_some_iff :
    compound? text = some (compound, rest) ↔
      ∃ read, text = read ++ rest ∧ IsCompound read compound ∧ EndsParts rest ∧
        EndsWord read rest := by
  refine ⟨exists_isCompound_of_compound?, ?_⟩
  rintro ⟨read, rfl, hcompound, hparts, hend⟩
  exact compound?_of_isCompound hcompound hparts hend

end ElementLint.Selector
