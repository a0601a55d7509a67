import ElementLint.Proofs.Selector.Language

/-!
# Selectors as they are written

A selector is written with a comma and a space between its alternatives, and each of these as the
name of the element, the classes, the id and the tests of attributes, whose values stand in double
quotes (`Selector.write`). What is written is read back as the selector it was, unless one of its
values holds a comma (`Selector.parse_write`): a selector is cut at its commas before anyone looks
for quotes.
-/

namespace ElementLint.Selector

open Text

/-! ### Writing -/

/-- A test of an attribute as it is written. -/
def AttributeTest.write : AttributeTest → List Char
  | .present name => '[' :: name.toList ++ [']']
  | .equals name value => '[' :: name.toList ++ '=' :: '"' :: value.toList ++ ['"', ']']

/-- A compound selector as it is written. -/
def Compound.write (compound : Compound) : List Char :=
  compound.element.elim [] String.toList ++
    (compound.classes.flatMap (fun name => '.' :: name.toList) ++
      (compound.id.elim [] (fun name => '#' :: name.toList) ++
        compound.attributes.flatMap AttributeTest.write))

/-- The alternatives of a selector as they are written. -/
def writeAll (compounds : List Compound) : List Char :=
  [',', ' '].intercalate (compounds.map Compound.write)

/-- A selector as it is written. -/
def write (selector : Selector) : String :=
  String.ofList (writeAll selector.alternatives)

/-- A test that can be written: its value holds no double quote. -/
def AttributeTest.IsWritable : AttributeTest → Prop
  | .present name => IsIdentifier name
  | .equals name value => IsIdentifier name ∧ '"' ∉ value.toList

/-- A compound selector whose parts can be written: its names are identifiers. -/
structure Compound.IsSpelled (compound : Compound) : Prop where
  element : ∀ name ∈ compound.element, IsIdentifier name
  classes : ∀ name ∈ compound.classes, IsIdentifier name
  id : ∀ name ∈ compound.id, IsIdentifier name
  attributes : ∀ test ∈ compound.attributes, test.IsWritable

/-- A compound selector that can be written: it asks for something. -/
structure Compound.IsWritable (compound : Compound) : Prop extends compound.IsSpelled where
  ne_empty : compound ≠ {}

instance (name : String) : Decidable (IsIdentifier name) :=
  decidable_of_iff (name.toList ≠ [] ∧ name.toList.all inIdentifier = true)
    ⟨fun h => ⟨h.1, List.all_eq_true.1 h.2⟩, fun h => ⟨h.ne_nil, List.all_eq_true.2 h.inWord⟩⟩

instance : DecidablePred AttributeTest.IsWritable
  | .present name => inferInstanceAs (Decidable (IsIdentifier name))
  | .equals name value => inferInstanceAs (Decidable (IsIdentifier name ∧ '"' ∉ value.toList))

instance (compound : Compound) : Decidable compound.IsSpelled :=
  decidable_of_iff ((∀ name ∈ compound.element, IsIdentifier name) ∧
      (∀ name ∈ compound.classes, IsIdentifier name) ∧
      (∀ name ∈ compound.id, IsIdentifier name) ∧ ∀ test ∈ compound.attributes, test.IsWritable)
    ⟨fun h => ⟨h.1, h.2.1, h.2.2.1, h.2.2.2⟩,
      fun h => ⟨h.element, h.classes, h.id, h.attributes⟩⟩

instance (compound : Compound) : Decidable compound.IsWritable :=
  decidable_of_iff (compound.IsSpelled ∧ compound ≠ {})
    ⟨fun h => ⟨h.1, h.2⟩, fun h => ⟨h.toIsSpelled, h.ne_empty⟩⟩

/-- Whether the value of a test holds a comma. -/
def AttributeTest.holdsComma : AttributeTest → Bool
  | .present _ => false
  | .equals _ value => value.toList.contains ','

/-- Whether a value in a compound selector holds a comma. -/
def Compound.holdsComma (compound : Compound) : Bool :=
  compound.attributes.any AttributeTest.holdsComma

variable {compound middle result : Compound} {test : AttributeTest} {text read rest : List Char}
  {name value : String} {c : Char}

/-! ### What is written is a compound selector -/

theorem allBlank_nil : AllBlank [] := by
  simp [AllBlank]

theorem AttributeTest.isTest_write (h : test.IsWritable) : IsTest test.write test := by
  cases test with
  | present name =>
    have htest := IsTest.present allBlank_nil h allBlank_nil
    simpa [write] using htest
  | equals name value =>
    have hvalue : IsValue ('"' :: value.toList ++ ['"']) value := .quoted (.inl rfl) h.2
    have htest :=
      IsTest.equals allBlank_nil h.1 allBlank_nil allBlank_nil hvalue allBlank_nil
    simpa [write] using htest

theorem Extends.append {more : List Char} (h : Extends compound read middle)
    (hmore : Extends middle more result) : Extends compound (read ++ more) result := by
  induction h with
  | done => exact hmore
  | step hcomponent _ ih =>
    rw [List.append_assoc]
    exact .step hcomponent (ih hmore)

/-- No text adds nothing. -/
theorem Extends.eq_of_nil (h : Extends compound [] result) : result = compound := by
  generalize hread : ([] : List Char) = read at h
  cases h with
  | done => rfl
  | step hcomponent _ =>
    obtain ⟨_, _, rfl, -⟩ := hcomponent.exists_cons
    contradiction

theorem extends_classes {classes : List String} (h : ∀ name ∈ classes, IsIdentifier name)
    (compound : Compound) :
    Extends compound (classes.flatMap fun name => '.' :: name.toList)
      { compound with classes := compound.classes ++ classes } := by
  induction classes generalizing compound with
  | nil => simpa using Extends.done
  | cons name classes ih =>
    obtain ⟨hname, hclasses⟩ := List.forall_mem_cons.1 h
    have hmore := ih hclasses { compound with classes := compound.classes ++ [name] }
    rw [List.append_assoc] at hmore
    exact .step (.inClass hname) hmore

theorem extends_id {id : Option String} (h : ∀ name ∈ id, IsIdentifier name)
    (hnone : compound.id = none) :
    Extends compound (id.elim [] fun name => '#' :: name.toList) { compound with id } := by
  cases id with
  | none =>
    cases compound
    obtain rfl := hnone
    exact .done
  | some name =>
    have hcomponent := IsComponent.hasId hnone (h name rfl)
    simpa using Extends.step hcomponent .done

theorem extends_attributes {tests : List AttributeTest} (h : ∀ test ∈ tests, test.IsWritable)
    (compound : Compound) :
    Extends compound (tests.flatMap AttributeTest.write)
      { compound with attributes := compound.attributes ++ tests } := by
  induction tests generalizing compound with
  | nil => simpa using Extends.done
  | cons test tests ih =>
    obtain ⟨htest, htests⟩ := List.forall_mem_cons.1 h
    have hmore := ih htests { compound with attributes := compound.attributes ++ [test] }
    rw [List.append_assoc] at hmore
    exact .step (.hasAttribute (AttributeTest.isTest_write htest)) hmore

namespace Compound

/-- The components of a compound selector as they are written. -/
def writeComponents (compound : Compound) : List Char :=
  compound.classes.flatMap (fun name => '.' :: name.toList) ++
    (compound.id.elim [] (fun name => '#' :: name.toList) ++
      compound.attributes.flatMap AttributeTest.write)

theorem write_eq (compound : Compound) :
    compound.write = compound.element.elim [] String.toList ++ compound.writeComponents :=
  rfl

/-- The components that are written are those of the compound selector. -/
theorem IsSpelled.extends_writeComponents (h : compound.IsSpelled) :
    Extends { element := compound.element } compound.writeComponents compound :=
  (extends_classes h.classes _).append
    ((extends_id h.id rfl).append (extends_attributes h.attributes _))

/-- What is written before a test starts with no blank. -/
theorem IsSpelled.isBlank_head?_write_append (h : compound.IsSpelled) (rest : List Char) :
    ∀ c ∈ (compound.write ++ '[' :: rest).head?, isBlank c = false := by
  rw [write_eq, List.append_assoc]
  cases helement : compound.element with
  | none =>
    intro c hc
    have hsign : c = '.' ∨ c = '#' ∨ c = '[' := by
      cases hread : compound.writeComponents with
      | nil =>
        rw [hread] at hc
        exact .inr (.inr (Option.some.inj hc).symm)
      | cons first more =>
        have hfirst := h.extends_writeComponents.of_mem_head? first (by rw [hread]; rfl)
        simp only [hread, Option.elim_none, List.nil_append, List.cons_append, List.head?_cons,
          Option.mem_some_iff] at hc
        exact hc ▸ hfirst
    rcases hsign with rfl | rfl | rfl <;> simp
  | some name => exact (h.element name helement).isBlank_head?_append

namespace IsWritable

variable (h : compound.IsWritable)
include h

theorem isCompound_write : IsCompound compound.write compound := by
  have hextends := h.extends_writeComponents
  rw [write_eq]
  cases helement : compound.element with
  | none =>
    rw [helement] at hextends
    refine .unnamed (fun hnil => h.ne_empty ?_) hextends
    -- without text there is nothing that the compound selector asks for
    have hnil : compound.writeComponents = [] := hnil
    exact (hnil ▸ hextends).eq_of_nil
  | some name =>
    rw [helement] at hextends
    exact .named (h.element name helement) hextends

end IsWritable

end Compound

/-! ### Ends -/

theorem IsIdentifier.isBlank_getLast? (h : IsIdentifier name) (before : List Char) :
    ∀ c ∈ (before ++ name.toList).getLast?, isBlank c = false := by
  intro c hc
  rw [List.getLast?_append, List.getLast?_eq_some_getLast h.ne_nil] at hc
  obtain rfl := Option.some.inj hc
  exact isBlank_of_inIdentifier (h.inWord _ (List.getLast_mem h.ne_nil))

theorem IsTest.exists_concat (h : IsTest read test) : ∃ init, read = init ++ [']'] := by
  cases h <;> exact ⟨_, rfl⟩

theorem IsComponent.isBlank_getLast? (h : IsComponent compound read result) :
    ∀ c ∈ read.getLast?, isBlank c = false := by
  cases h with
  | inClass hname => exact hname.isBlank_getLast? ['.']
  | hasId _ hname => exact hname.isBlank_getLast? ['#']
  | hasAttribute htest =>
    obtain ⟨init, rfl⟩ := htest.exists_concat
    simp

theorem Extends.isBlank_getLast? (h : Extends compound read result) (before : List Char)
    (hbefore : ∀ c ∈ before.getLast?, isBlank c = false) :
    ∀ c ∈ (before ++ read).getLast?, isBlank c = false := by
  induction h generalizing before with
  | done => rwa [List.append_nil]
  | step hcomponent _ ih =>
    rw [← List.append_assoc]
    refine ih _ fun c hc => ?_
    obtain ⟨_, _, rfl, -⟩ := hcomponent.exists_cons
    rw [List.getLast?_append_cons] at hc
    exact hcomponent.isBlank_getLast? c hc

theorem IsCompound.isBlank_getLast? (h : IsCompound text compound) :
    ∀ c ∈ text.getLast?, isBlank c = false := by
  cases h with
  | universal hextends => exact hextends.isBlank_getLast? ['*'] (by simp)
  | named hname hextends => exact hextends.isBlank_getLast? _ (hname.isBlank_getLast? [])
  | unnamed _ hextends => exact hextends.isBlank_getLast? [] (by simp)

/-! ### Commas -/

theorem IsIdentifier.comma_not_mem (h : IsIdentifier name) : ',' ∉ name.toList := fun hmem => by
  have hcomma : inIdentifier ',' = false := by decide
  rw [h.inWord ',' hmem] at hcomma
  contradiction

theorem AttributeTest.comma_not_mem_write (h : test.IsWritable) (hcomma : test.holdsComma = false) :
    ',' ∉ test.write := by
  cases test with
  | present name =>
    have hname := IsIdentifier.comma_not_mem h
    simp [write, hname]
  | equals name value =>
    have hname := IsIdentifier.comma_not_mem h.1
    have hvalue : ',' ∉ value.toList := by simpa [holdsComma] using hcomma
    simp [write, hname, hvalue]

namespace Compound

/-- Commas are written in values only. -/
theorem IsSpelled.comma_not_mem_write (h : compound.IsSpelled)
    (hcomma : compound.holdsComma = false) : ',' ∉ compound.write := by
  have hattributes : ∀ test ∈ compound.attributes, ',' ∉ test.write := fun test htest =>
    AttributeTest.comma_not_mem_write (h.attributes test htest)
      (by simpa using List.any_eq_false.1 hcomma test htest)
  have hclasses : ∀ name ∈ compound.classes, ',' ∉ name.toList := fun name hname =>
    (h.classes name hname).comma_not_mem
  have helement : ',' ∉ compound.element.elim [] String.toList := by
    cases hname : compound.element with
    | none => exact List.not_mem_nil
    | some name => exact (h.element name hname).comma_not_mem
  have hid : ',' ∉ compound.id.elim [] fun name => '#' :: name.toList := by
    cases hname : compound.id with
    | none => exact List.not_mem_nil
    | some name => simpa using (h.id name hname).comma_not_mem
  simp only [write, List.mem_append, List.mem_flatMap, not_or, not_exists, not_and]
  refine ⟨helement, fun name hname => ?_, hid, hattributes⟩
  simpa using hclasses name hname

end Compound

/-! ### Values that are cut -/

/-- The value of a test is not read if its closing quote is missing. -/
theorem attributeTest?_eq_none (hname : IsIdentifier name) (htext : '"' ∉ text) :
    attributeTest? (name.toList ++ '=' :: '"' :: text) = none := by
  have hword : ∀ c ∈ ('=' :: '"' :: text).head?, inIdentifier c = false := by simp
  have hvalue : value? ('"' :: text) = none := by
    have hnil : text.dropWhile (· != '"') = [] := by
      rw [List.dropWhile_eq_nil_iff]
      intro c hc
      simpa using ne_of_mem_of_not_mem hc htext
    simp [value?, hnil]
  rw [attributeTest?, dropWhile_eq_self_of_head? hname.isBlank_head?_append,
    identifier?_eq_some_iff.2 ⟨rfl, hname, hword⟩]
  simp [hvalue]

/-- A compound selector is not read if one of its tests is not. -/
theorem compound?_eq_none {element : Option String} (helement : ∀ name ∈ element, IsIdentifier name)
    (hextends : Extends { element } read middle) (htest : attributeTest? text = none) :
    compound? (element.elim [] String.toList ++ (read ++ '[' :: text)) = none := by
  have hend : EndsWord read ('[' :: text) := endsWord_of_head? (by simp)
  have hnone :
      components? (read ++ '[' :: text).length { element } (read ++ '[' :: text) = none := by
    obtain ⟨left, hleft, heq⟩ := exists_components?_append hextends hend (Nat.le_refl _)
    rw [heq]
    cases left with
    | zero => simp at hleft
    | succ left => simp [components?, component?, htest]
  have hhead : ∀ c ∈ (read ++ '[' :: text).head?, c = '.' ∨ c = '#' ∨ c = '[' := by
    cases read with
    | nil => simp
    | cons first more => simpa using hextends.of_mem_head? first rfl
  cases element with
  | none => exact (compound?_unnamed hhead).trans (by rw [hnone])
  | some name =>
    have hword : ∀ c ∈ (read ++ '[' :: text).head?, inIdentifier c = false := fun c hc => by
      rcases hhead c hc with rfl | rfl | rfl <;> simp
    exact (compound?_named (helement name rfl) hword).trans hnone

/-- The part of a compound selector before the first comma in one of its values is not read. -/
theorem Compound.IsSpelled.exists_cut (h : compound.IsSpelled)
    (hcomma : compound.holdsComma = true) :
    ∃ head tail, compound.write = head ++ ',' :: tail ∧ ',' ∉ head ∧
      alternative (trim head) = .error .unparseable := by
  -- the first test whose value holds a comma, and that value up to its first comma
  obtain ⟨test, hfind⟩ := Option.isSome_iff_exists.1
    (List.find?_isSome.2 (List.any_eq_true.1 hcomma))
  obtain ⟨htest, before, after, hattributes, hbefore⟩ := List.find?_eq_some_iff_append.1 hfind
  obtain ⟨name, value, rfl⟩ : ∃ name value, test = .equals name value := by
    cases test with
    | present => contradiction
    | equals name value => exact ⟨name, value, rfl⟩
  obtain ⟨start, tail, hvalue, hstart⟩ :=
    List.eq_append_cons_of_mem (List.contains_iff_mem.1 htest)
  obtain ⟨hname, hquote⟩ := h.attributes (.equals name value) (by simp [hattributes])
  let front : Compound := { compound with attributes := before }
  have hfront : front.IsSpelled :=
    ⟨h.element, h.classes, h.id, fun test (htest : test ∈ before) =>
      h.attributes test (by rw [hattributes]; exact List.mem_append_left _ htest)⟩
  have hfrontComma : front.holdsComma = false :=
    List.any_eq_false.2 fun test htest => by simpa using hbefore test htest
  refine ⟨front.write ++ '[' :: (name.toList ++ '=' :: '"' :: start),
    tail ++ '"' :: ']' :: after.flatMap AttributeTest.write, ?_, ?_, ?_⟩
  · simp [Compound.write, front, hattributes, AttributeTest.write, hvalue]
  · simp [hfront.comma_not_mem_write hfrontComma, hname.comma_not_mem, hstart]
  · -- trimming may shorten the cut value, but the quote before it stays
    have hhead := hfront.isBlank_head?_write_append (name.toList ++ '=' :: '"' :: start)
    have hsplit : front.write ++ '[' :: (name.toList ++ '=' :: '"' :: start) =
        (front.write ++ '[' :: (name.toList ++ ['='])) ++ '"' :: start := by simp
    rw [hsplit] at hhead
    obtain ⟨kept, htrim, hkept⟩ := exists_trim_append_cons hhead (by simp)
    have hquote : '"' ∉ kept := fun hmem =>
      hquote (hvalue ▸ List.mem_append_left _ (hkept.subset hmem))
    have hnone := compound?_eq_none h.element hfront.extends_writeComponents
      (attributeTest?_eq_none hname hquote)
    have htext : (front.write ++ '[' :: (name.toList ++ ['='])) ++ '"' :: kept =
        compound.element.elim [] String.toList ++
          (front.writeComponents ++ '[' :: (name.toList ++ '=' :: '"' :: kept)) := by
      simp [Compound.write_eq, front]
    rw [hsplit, htrim, htext, alternative, hnone]

theorem writeAll_cons_cons (first second : Compound) (rest : List Compound) :
    writeAll (first :: second :: rest) =
      first.write ++ ',' :: ' ' :: writeAll (second :: rest) := by
  simp [writeAll, List.intercalate_cons_cons]

/-- A compound selector that is written without commas is read as an alternative. -/
theorem Compound.IsWritable.alternative_trim_write (h : compound.IsWritable) :
    alternative (trim compound.write) = .ok compound := by
  have hcompound := h.isCompound_write
  have hhead : ∀ c ∈ compound.write.head?, isBlank c = false := fun c hc =>
    (hcompound.of_mem_head?_append c (by rwa [List.append_nil])).1
  rw [trim_eq_self hhead hcompound.isBlank_getLast?,
    alternative_eq_ok_iff hcompound.isBlank_getLast?]
  exact hcompound

/-- Blanks before a text without commas add no comma. -/
theorem comma_not_mem_append {blanks run : List Char} (hblanks : AllBlank blanks)
    (hrun : ',' ∉ run) : ∀ c ∈ blanks ++ run, (c == ',') = false := by
  intro c hc
  rcases List.mem_append.1 hc with hc | hc
  · have hne : c ≠ ',' := by
      rintro rfl
      exact absurd (hblanks _ hc) (by decide)
    simpa using hne
  · simpa using ne_of_mem_of_not_mem hc hrun

/-- The pieces of what is written are read one by one, up to the first value with a comma. -/
theorem mapM_alternative_writeAll {compounds : List Compound} (hne : compounds ≠ [])
    (h : ∀ compound ∈ compounds, compound.IsWritable) (blanks : List Char)
    (hblanks : AllBlank blanks) :
    ((pieces (· == ',') (blanks ++ writeAll compounds)).map trim).mapM alternative =
      if compounds.any Compound.holdsComma then .error .unparseable else .ok compounds := by
  induction compounds generalizing blanks with
  | nil => contradiction
  | cons compound rest ih =>
    obtain ⟨hcompound, hrest⟩ := List.forall_mem_cons.1 h
    obtain ⟨more, hmore⟩ : ∃ more, writeAll (compound :: rest) = compound.write ++ more := by
      cases rest with
      | nil => exact ⟨[], by simp [writeAll]⟩
      | cons second others => exact ⟨_, writeAll_cons_cons compound second others⟩
    cases hcomma : compound.holdsComma with
    | true =>
      -- the first comma of the text stands in a value, and what is left of the value does not parse
      obtain ⟨head, tail, hwrite, hhead, herror⟩ := hcompound.exists_cut hcomma
      have htext : blanks ++ writeAll (compound :: rest) =
          (blanks ++ head) ++ ',' :: (tail ++ more) := by
        simp [hmore, hwrite]
      rw [htext, pieces_append_cons (comma_not_mem_append hblanks hhead) rfl, List.map_cons,
        List.mapM_cons, trim_blanks_append hblanks, herror, List.any_cons, hcomma]
      rfl
    | false =>
      have hread : alternative (trim (blanks ++ compound.write)) = .ok compound := by
        rw [trim_blanks_append hblanks, hcompound.alternative_trim_write]
      have hwrite := comma_not_mem_append hblanks (hcompound.comma_not_mem_write hcomma)
      cases rest with
      | nil =>
        have htext : writeAll [compound] = compound.write := by simp [writeAll]
        rw [htext, pieces_eq_singleton hwrite, List.map_singleton, List.mapM_cons, hread,
          List.any_cons, hcomma]
        rfl
      | cons second others =>
        -- the blank behind the comma goes to the next piece, which is why the blanks are general
        have hlater := ih (List.cons_ne_nil _ _) hrest [' '] (by simp [AllBlank]; decide)
        rw [writeAll_cons_cons, ← List.append_assoc, pieces_append_cons hwrite rfl, List.map_cons,
          List.mapM_cons, hread, List.any_cons, hcomma, Bool.false_or]
        rw [List.singleton_append] at hlater
        rw [hlater]
        split <;> rfl

/-- A selector that is written out is read back, unless one of its values holds a comma. Then the
selector is cut inside of the quotes, and the piece before that comma is unparseable. -/
theorem parse_write (selector : Selector) (hne : selector.alternatives ≠ [])
    (h : ∀ compound ∈ selector.alternatives, compound.IsWritable) :
    parse selector.write =
      if selector.alternatives.any Compound.holdsComma then .error .unparseable
      else .ok selector := by
  have hread := mapM_alternative_writeAll hne h [] allBlank_nil
  rw [List.nil_append] at hread
  rw [parse, write, String.toList_ofList, hread]
  split <;> rfl

/-- Brackets, blanks, signs of combinators and single quotes in a value do not matter. -/
theorem parse_write_signs :
    let selector : Selector :=
      ⟨[{ element := some "h2", classes := ["a", "b-c"], id := some "d" },
        { attributes := [.present "e", .equals "f" " > [it's] "] }]⟩
    selector.alternatives ≠ [] ∧ (∀ compound ∈ selector.alternatives, compound.IsWritable) ∧
      selector.write = "h2.a.b-c#d, [e][f=\" > [it's] \"]" ∧
      parse selector.write = .ok selector := by
  intro selector
  have hwritable : ∀ compound ∈ selector.alternatives, compound.IsWritable := by decide +kernel
  refine ⟨by decide, hwritable, by decide +kernel, ?_⟩
  exact parse_write selector (by decide) hwritable

/-- A selector whose value holds a comma is not read back. -/
theorem parse_write_comma :
    let selector : Selector := ⟨[{ attributes := [.equals "title" "a,b"] }]⟩
    selector.alternatives ≠ [] ∧ (∀ compound ∈ selector.alternatives, compound.IsWritable) ∧
      selector.write = "[title=\"a,b\"]" ∧ parse selector.write = .error .unparseable := by
  intro selector
  exact ⟨by decide, by decide +kernel, by decide +kernel, by decide +kernel⟩

end ElementLint.Selector
