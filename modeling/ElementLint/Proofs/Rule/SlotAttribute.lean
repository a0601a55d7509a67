import ElementLint.Proofs.Markup.Token
import ElementLint.Proofs.Rule.SlotSpecification

/-!
# What an inserted attribute says

An insertion of `ContentToSlotUsages` is meant to put the attribute `slot` with the name of a slot
into a start tag. The name is written as it is between double quotes, without any references. Read
again, a name without a double quote is the value of one attribute, with its references decoded
(`readTag_slotAttribute`); so a name of other characters than those that are read differently comes
back as it was. Of a name with a double quote no more than the part before it is the value
(`head?_attributes_readTag`).
-/

namespace ElementLint

open Markup Text

namespace Markup

/-- What is read of a start tag with some text after its name. -/
def readTag (starts : List Nat) (characterData : Bool) (text : String) : List Token × List Char :=
  Token.next starts .markup characterData ("<x" ++ text ++ ">").toList

/-- A character that stands for itself between double quotes. -/
def IsLiteral (c : Char) : Prop :=
  c ≠ '"' ∧ c ≠ '&' ∧ c ≠ '\r' ∧ c ≠ '\x00'

instance (c : Char) : Decidable (IsLiteral c) :=
  inferInstanceAs (Decidable (c ≠ '"' ∧ c ≠ '&' ∧ c ≠ '\r' ∧ c ≠ '\x00'))

/-! ### Reading a value -/

theorem attributeValue_of_isLiteral {text : List Char} (h : ∀ c ∈ text, IsLiteral c) :
    attributeValue text = String.ofList text := by
  have hnull : withoutNull text = text := withoutNull_eq_self fun c hc => (h c hc).2.2.2
  have hdecode : decodeAfter true 0 text = text.map .char := by
    clear hnull
    induction text with
    | nil => rfl
    | cons c text ih =>
      obtain ⟨⟨-, hamp, hreturn, -⟩, htext⟩ := List.forall_mem_cons.1 h
      rw [decodeAfter, if_neg hamp, if_neg hreturn, ih htext, List.map_cons]
  have hcharacters : Piece.characters (text.map .char) = text := by
    rw [Piece.characters, List.filterMap_map]
    exact List.filterMap_some
  rw [attributeValue, hnull, decode, hdecode, hcharacters]

/-- The attributes that are read first stay the first ones. -/
theorem prefix_of_cutAttributes_eq_some {starts : List Nat} {steps : Nat}
    {found read : List Attribute} {text rest : List Char} {closes : Bool}
    (h : cutAttributes starts steps found text = some (read, closes, rest)) :
    found.reverse <+: read := by
  fun_induction cutAttributes starts steps found text with
  | case1 => contradiction
  | case2 => contradiction
  | case3 steps found text =>
    obtain ⟨rfl, -, -⟩ : found.reverse = read ∧ _ := by simpa using h
    exact List.prefix_refl _
  | case4 steps found text =>
    obtain ⟨rfl, -, -⟩ : found.reverse = read ∧ _ := by simpa using h
    exact List.prefix_refl _
  | case5 _ _ _ _ _ _ _ ih => exact ih h
  | case6 _ _ _ _ _ _ _ _ _ _ _ ih => exact ih h
  | case7 steps found c text _ _ _ new rest _ _ ih =>
    rw [List.reverse_cons] at ih
    exact (List.prefix_append _ _).trans (ih h)

/-- A tag with the attribute `slot` is read from the value on. -/
theorem cutTag_slot (starts : List Nat) (text : List Char) :
    cutTag starts ("x slot=\"".toList ++ text) =
      (cutAttributes starts (text.length + 7)
        [⟨"slot", attributeValue (text.takeWhile (· != '"'))⟩]
        ((text.dropWhile (· != '"')).drop 1)).map
        fun (attributes, selfClosing, rest) => (⟨"x", attributes, selfClosing⟩, rest) := by
  -- all characters up to the value are known
  rfl

/-- The attribute that is inserted, with the end of the tag behind it. -/
theorem readTag_eq (starts : List Nat) (characterData : Bool) (name : String) :
    readTag starts characterData (" slot=\"" ++ name ++ "\"") =
      match cutTag starts ("x slot=\"".toList ++ (name.toList ++ ['"', '>'])) with
      | some (tag, rest) => ([.startTag tag], rest)
      | none => ([], []) := by
  have htext : ("<x" ++ (" slot=\"" ++ name ++ "\"") ++ ">").toList =
      '<' :: 'x' :: (" slot=\"".toList ++ (name.toList ++ ['"', '>'])) := by
    simp
  rw [readTag, htext]
  rfl

theorem head?_attributes_readTag {starts : List Nat} {characterData : Bool} {name : String}
    {tag : Tag} {tokens : List Token} {rest : List Char}
    (h : readTag starts characterData (" slot=\"" ++ name ++ "\"") =
      (.startTag tag :: tokens, rest)) :
    tag.attributes.head? = some ⟨"slot", attributeValue (name.toList.takeWhile (· != '"'))⟩ := by
  -- the quote behind the name ends the value if no earlier one does
  have htake (text : List Char) :
      (text ++ ['"', '>']).takeWhile (· != '"') = text.takeWhile (· != '"') := by
    induction text with
    | nil => rfl
    | cons c text ih => rw [List.cons_append, List.takeWhile_cons, List.takeWhile_cons, ih]
  rw [readTag_eq, cutTag_slot, htake] at h
  split at h
  · next read rest' hread =>
    obtain ⟨⟨attributes, closes, after⟩, hcut, heq⟩ := Option.map_eq_some_iff.1 hread
    obtain ⟨rfl, -⟩ := Prod.mk.inj heq
    simp only [Prod.mk.injEq, List.cons.injEq, Token.startTag.injEq] at h
    obtain ⟨⟨rfl, -⟩, -⟩ := h
    obtain ⟨more, rfl⟩ := prefix_of_cutAttributes_eq_some hcut
    rfl
  · simp at h

/-- A name without a double quote is read as the value of one attribute. -/
theorem readTag_slotAttribute (starts : List Nat) (characterData : Bool) {name : String}
    (h : '"' ∉ name.toList) :
    readTag starts characterData (" slot=\"" ++ name ++ "\"") =
      ([.startTag ⟨"x", [⟨"slot", attributeValue name.toList⟩], false⟩], []) := by
  have hname : ∀ c ∈ name.toList, (c != '"') = true := fun c hc =>
    bne_iff_ne.2 fun heq => h (heq ▸ hc)
  have hstop : ∀ c ∈ ['"', '>'].head?, (c != '"') = false := by simp
  -- behind the value only the end of the tag is left
  rw [readTag_eq, cutTag_slot, takeWhile_append_eq hname hstop, dropWhile_append_eq hname hstop]
  rfl

end Markup

namespace ContentToSlotUsages

open Document

/-- What stands in the second of two lists stands beside something in the first. -/
theorem exists_of_mem_forall₂ {α β : Type} {R : α → β → Prop} {as : List α} {bs : List β}
    (h : List.Forall₂ R as bs) {b : β} (hmem : b ∈ bs) : ∃ a ∈ as, R a b := by
  induction h with
  | nil => contradiction
  | cons hab _ ih =>
    rcases List.mem_cons.1 hmem with rfl | hmem
    · exact ⟨_, List.mem_cons_self, hab⟩
    · obtain ⟨a, ha, hab⟩ := ih hmem
      exact ⟨a, List.mem_cons_of_mem _ ha, hab⟩

/-- A replacement in a fix is the insertion for a child of a usage. -/
theorem exists_isInsertion_of_mem_fix {document : Document} (hordered : document.Ordered)
    {warnings : List Warning} (h : check document = .ok warnings) {warning : Warning}
    (hwarning : warning ∈ warnings) {fix : Edit} (hfix : warning.fix = some fix)
    {replacement : Replacement} (hmem : replacement ∈ fix) :
    ∃ module content usage child, Defines document module content ∧
      IsUsage document module content usage ∧ IsMoved document content usage child ∧
      IsInsertion document content child replacement := by
  obtain ⟨modules, answers, -, hanswers, rfl⟩ := (check_eq_ok_iff hordered).1 h
  obtain ⟨answer, hanswer, hwarning⟩ := List.mem_flatten.1 hwarning
  obtain ⟨module, -, content, problems, problemWarnings, usages, usageWarnings, hdefines, -,
    hproblems, husages, hwarns, rfl⟩ := exists_of_mem_forall₂ hanswers hanswer
  rcases List.mem_append.1 hwarning with hproblem | husage
  · -- the warning about a slot has no fix
    obtain ⟨slot, -, selector, problem, range, -, -, -, rfl⟩ :=
      exists_of_mem_forall₂ hproblems hproblem
    contradiction
  · obtain ⟨usage, hlisted, tag, range, children, fix', -, -, hchildren, hinsertions, rfl⟩ :=
      exists_of_mem_forall₂ hwarns husage
    obtain rfl := Option.some.inj hfix
    obtain ⟨child, hchild, hinsertion⟩ := exists_of_mem_forall₂ hinsertions hmem
    exact ⟨module, content, usage, child, hdefines, (husages.mem_iff usage).1 hlisted,
      (hchildren.mem_iff child).1 hchild, hinsertion⟩

/-- A replacement in a fix goes behind the tag name of a child of a usage and is read as follows. If
it makes a start tag at all, the first attribute is `slot`, and its value is what the name of the
first slot that takes the child spells up to a double quote. If no double quote is in the name, this
is the only attribute, and if all characters of the name stand for themselves, its value is the
name. -/
theorem readTag_of_mem_fix (url contents : String) {warnings : List Warning}
    (h : check (parse url contents) = .ok warnings) {warning : Warning}
    (hwarning : warning ∈ warnings) {fix : Edit} (hfix : warning.fix = some fix)
    {replacement : Replacement} (hmem : replacement ∈ fix) :
    let document := parse url contents
    ∃ module content usage child name span, Defines document module content ∧
      IsUsage document module content usage ∧ IsMoved document content usage child ∧
      BelongsTo document content child name ∧ document.span? child = some span ∧
      replacement = ⟨document.rangeOf ⟨span.nameEnd, span.nameEnd⟩, " slot=\"" ++ name ++ "\""⟩ ∧
      ∀ starts characterData,
        (∀ tag tokens rest, readTag starts characterData replacement.text =
            (.startTag tag :: tokens, rest) →
          tag.attributes.head? =
            some ⟨"slot", attributeValue (name.toList.takeWhile (· != '"'))⟩) ∧
        ('"' ∉ name.toList → readTag starts characterData replacement.text =
          ([.startTag ⟨"x", [⟨"slot", attributeValue name.toList⟩], false⟩], [])) ∧
        ((∀ c ∈ name.toList, IsLiteral c) → readTag starts characterData replacement.text =
          ([.startTag ⟨"x", [⟨"slot", name⟩], false⟩], [])) := by
  intro document
  obtain ⟨module, content, usage, child, hdefines, husage, hmoved, name, span, hbelongs, hspan,
    rfl⟩ := exists_isInsertion_of_mem_fix (ordered_parse url contents) h hwarning hfix hmem
  refine ⟨module, content, usage, child, name, span, hdefines, husage, hmoved, hbelongs, hspan,
    rfl, fun starts characterData => ⟨fun tag tokens rest => head?_attributes_readTag,
      readTag_slotAttribute starts characterData, fun hliteral => ?_⟩⟩
  have hvalue : attributeValue name.toList = name := by
    rw [attributeValue_of_isLiteral hliteral, String.ofList_toList]
  have hread := readTag_slotAttribute starts characterData
    fun hquote : '"' ∈ name.toList => (hliteral _ hquote).1 rfl
  rwa [hvalue] at hread

theorem exists_mem_fix (document : Document) (texts : List String)
    (h : (check document).map (fun warnings => warnings.flatMap fun warning =>
      (warning.fix.getD []).map (·.text)) = .ok texts) {text : String} (htext : text ∈ texts) :
    ∃ warnings, check document = .ok warnings ∧
      ∃ warning ∈ warnings, ∃ fix, warning.fix = some fix ∧
        ∃ replacement ∈ fix, replacement.text = text := by
  obtain ⟨warnings, hcheck, rfl⟩ := Except.exists_of_map_eq_ok h
  obtain ⟨warning, hwarning, htext⟩ := List.mem_flatMap.1 htext
  obtain ⟨replacement, hmem, htext⟩ := List.mem_map.1 htext
  cases hfix : warning.fix with
  | none =>
    rw [hfix] at hmem
    contradiction
  | some fix =>
    rw [hfix] at hmem
    exact ⟨warnings, hcheck, warning, hwarning, fix, hfix, replacement, hmem, htext⟩

theorem name_inj {name other : String}
    (h : " slot=\"" ++ name ++ "\"" = " slot=\"" ++ other ++ "\"") : name = other := by
  have hlist := congrArg String.toList h
  simp only [String.toList_append, List.append_cancel_right_eq, List.append_cancel_left_eq] at hlist
  exact String.toList_inj.1 hlist

/-- A name with characters that end a tag elsewhere comes back. -/
theorem readTag_of_mem_fix_literal :
    let document := parse "a" ("<dom-module id=x-a><template><slot name='a> =b' " ++
      "old-content-selector=p></slot></template></dom-module><x-a><p>")
    ∃ warnings, check document = .ok warnings ∧
      ∃ warning ∈ warnings, ∃ fix, warning.fix = some fix ∧ ∃ replacement ∈ fix,
        ∃ content child, BelongsTo document content child "a> =b" ∧
          ∀ starts characterData, readTag starts characterData replacement.text =
            ([.startTag ⟨"x", [⟨"slot", "a> =b"⟩], false⟩], []) := by
  intro document
  obtain ⟨warnings, hcheck, warning, hwarning, fix, hfix, replacement, hmem, htext⟩ :=
    exists_mem_fix document [" slot=\"a> =b\""] (by decide +kernel)
      List.mem_cons_self
  obtain ⟨module, content, usage, child, name, span, -, -, -, hbelongs, -, rfl, hread⟩ :=
    readTag_of_mem_fix _ _ hcheck hwarning hfix hmem
  obtain rfl : name = "a> =b" := name_inj htext
  have hall : "a> =b".toList.all (fun c => decide (IsLiteral c)) = true := by decide +kernel
  exact ⟨warnings, hcheck, warning, hwarning, fix, hfix, _, hmem, content, child, hbelongs,
    fun starts characterData => (hread starts characterData).2.2 fun c hc =>
      of_decide_eq_true (List.all_eq_true.1 hall c hc)⟩

/-- A name with a double quote does not: its second half becomes an attribute of its own. -/
theorem readTag_of_mem_fix_quote :
    let document := parse "a" ("<dom-module id=\"x-a\"><template><slot name='a\"b' " ++
      "old-content-selector=\"p\"></slot></template></dom-module><x-a><p></p></x-a>")
    ∃ warnings, check document = .ok warnings ∧
      ∃ warning ∈ warnings, ∃ fix, warning.fix = some fix ∧ ∃ replacement ∈ fix,
        ∃ content child, BelongsTo document content child "a\"b" ∧
          readTag [] false replacement.text =
            ([.startTag ⟨"x", [⟨"slot", "a"⟩, ⟨"b\"", ""⟩], false⟩], []) := by
  intro document
  obtain ⟨warnings, hcheck, warning, hwarning, fix, hfix, replacement, hmem, htext⟩ :=
    exists_mem_fix document [" slot=\"a\"b\""] (by decide +kernel)
      List.mem_cons_self
  obtain ⟨module, content, usage, child, -, -, -, name, span, hbelongs, -, hreplacement⟩ :=
    exists_isInsertion_of_mem_fix (ordered_parse _ _) hcheck hwarning hfix hmem
  have hread : readTag [] false " slot=\"a\"b\"" =
      ([.startTag ⟨"x", [⟨"slot", "a"⟩, ⟨"b\"", ""⟩], false⟩], []) := by
    decide +kernel
  rw [← htext] at hread
  rw [hreplacement] at htext
  obtain rfl : name = "a\"b" := name_inj htext
  exact ⟨warnings, hcheck, warning, hwarning, fix, hfix, _, hmem, content, child, hbelongs, hread⟩

end ContentToSlotUsages

end ElementLint
