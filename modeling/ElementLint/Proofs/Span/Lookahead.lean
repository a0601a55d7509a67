import ElementLint.Proofs.Span.Mark

/-!
# How far the scan looks ahead

What the scan finds in the beginning of a text does not depend on what follows, as soon as the tag
or the comment there has ended. For each function of the scan that has come from `text ++ rest` to
`left ++ rest` there is a lemma that says that it comes from `text ++ other` to `left ++ other`,
with the same answer.
-/

namespace ElementLint.Span

open Text Cursor

variable {offset place : Nat} {text left rest other : List Char}

/-! ### The moves of a cursor -/

namespace Cursor

/-- A text that ends in what a cursor has before it is what it passed, and what is left of it. -/
theorem Passes.eq_append {passed : List Char}
    (h : Passes ⟨offset, text ++ rest⟩ passed ⟨place, left ++ rest⟩) : text = passed ++ left := by
  have htext : text ++ rest = passed ++ (left ++ rest) := h.1
  rwa [← List.append_assoc, List.append_cancel_right_eq] at htext

/-- Where a move stops is known from what it passes over. -/
theorem Passes.unique {passed : List Char} {first second third : Cursor}
    (h : Passes first passed second) (h' : Passes first passed third) : second = third := by
  have hrest := List.append_cancel_left (h.1.symm.trans h'.1)
  have hoffset := h.2.trans h'.2.symm
  cases second
  cases third
  exact congrArg₂ Cursor.mk hoffset hrest

/-- Where a move over a run of characters stops is known from the text up to the character that
stops it. -/
theorem skipFrom_swap {p : Char → Bool} (hleft : left ≠ [])
    (h : skipFrom p offset (text ++ rest) = ⟨place, left ++ rest⟩) (other : List Char) :
    skipFrom p offset (text ++ other) = ⟨place, left ++ other⟩ := by
  induction text generalizing offset with
  | nil =>
    have hlength := length_skipFrom_le p offset rest
    have hpos := List.length_pos_iff.2 hleft
    rw [List.nil_append] at h
    rw [h, List.length_append] at hlength
    omega
  | cons c text ih =>
    rw [List.cons_append, skipFrom] at h ⊢
    split at h
    · next hc =>
      rw [if_pos hc]
      exact ih h
    · next hc =>
      obtain ⟨rfl, hrest⟩ := Cursor.mk.inj h
      rw [← List.cons_append, List.append_cancel_right_eq] at hrest
      rw [if_neg hc, ← hrest, List.cons_append]

/-- Moving over the run of characters that a predicate accepts is moving over as many characters. -/
theorem drop_length_takeWhile (p : Char → Bool) (offset : Nat) (text : List Char) :
    (Cursor.mk offset text).drop (text.takeWhile p).length = skipFrom p offset text := by
  have hdrop : Passes ⟨offset, text⟩ _ _ := passes_drop_word (List.takeWhile_prefix p)
  exact hdrop.unique (passes_skipFrom p offset text)

/-- The run itself is known as well. -/
theorem takeWhile_swap {p : Char → Bool} (hleft : left ≠ [])
    (h : skipFrom p offset (text ++ rest) = ⟨place, left ++ rest⟩) (other : List Char) :
    (text ++ other).takeWhile p = (text ++ rest).takeWhile p := by
  have hpassed := passes_skipFrom p offset (text ++ rest)
  have hpassed' := passes_skipFrom p offset (text ++ other)
  rw [h] at hpassed
  rw [skipFrom_swap hleft h other] at hpassed'
  exact List.append_cancel_right (hpassed'.eq_append.symm.trans hpassed.eq_append)

/-- A search tells what it passed: nothing was found in it. -/
theorem seekFrom_spec (found : List Char → Bool) (offset : Nat) (text : List Char) :
    ∃ passed, text = passed ++ (seekFrom found offset text).rest ∧
      (∀ last, last <:+ passed → last ≠ [] →
        found (last ++ (seekFrom found offset text).rest) = false) ∧
      ((seekFrom found offset text).rest = [] ∨
        found (seekFrom found offset text).rest = true) := by
  induction text generalizing offset with
  | nil => exact ⟨[], rfl, by simp, .inl rfl⟩
  | cons c text ih =>
    rw [seekFrom]
    split
    · next hfound => exact ⟨[], rfl, by simp, .inr hfound⟩
    · next hfound =>
      obtain ⟨passed, htext, hnone, hend⟩ := ih (offset + c.utf8Size)
      refine ⟨c :: passed, by rw [List.cons_append, ← htext], fun last hlast hne => ?_, hend⟩
      rcases List.suffix_cons_iff.1 hlast with rfl | hlast
      · rw [List.cons_append, ← htext]
        simpa using hfound
      · exact hnone last hlast hne

/-- Whether a word starts a text that holds it further on does not depend on what follows. -/
theorem prefix_append_word {word last : List Char} (h : word <+: last ++ (word ++ rest))
    (other : List Char) : word <+: last ++ (word ++ other) := by
  rw [← List.append_assoc] at h ⊢
  have hshort : word <+: last ++ word :=
    List.prefix_of_prefix_length_le h (List.prefix_append _ _) (by simp)
  exact hshort.trans (List.prefix_append _ _)

/-- A move past a word that is found depends only on the text up to the end of the word. -/
theorem skipPast_swap {word : List Char} (hleft : left ≠ [])
    (h : (Cursor.mk offset (text ++ rest)).skipPast word = ⟨place, left ++ rest⟩)
    (other : List Char) :
    (Cursor.mk offset (text ++ other)).skipPast word = ⟨place, left ++ other⟩ := by
  obtain ⟨before, htext, hnone, hend⟩ := seekFrom_spec word.isPrefixOf offset (text ++ rest)
  have hskip : (seekFrom word.isPrefixOf offset (text ++ rest)).drop word.length =
    ⟨place, left ++ rest⟩ := h
  -- the word was found, since something is left
  have hfound : word <+: (seekFrom word.isPrefixOf offset (text ++ rest)).rest := by
    rcases hend with hnil | hfound
    · rw [drop, hnil, List.drop_nil] at hskip
      exact absurd (List.append_eq_nil_iff.1 (Cursor.mk.inj hskip).2.symm).1 hleft
    · exact List.isPrefixOf_iff_prefix.1 hfound
  have hmore := (passes_drop_word hfound).1
  rw [hskip] at hmore
  rw [hmore] at htext hnone
  have hcut : text = before ++ (word ++ left) := by
    refine List.append_cancel_right (?_ : _ ++ rest = _ ++ rest)
    rw [htext, List.append_assoc, List.append_assoc]
  have hpast : ∀ more, (Cursor.mk offset (before ++ (word ++ more))).skipPast word =
      ⟨offset + byteSize before + byteSize word, more⟩ := by
    refine fun more => skipPast_append fun last hlast hne hstarts => ?_
    have hnot := hnone last hlast hne
    rw [← Bool.not_eq_true, List.isPrefixOf_iff_prefix] at hnot
    exact hnot (prefix_append_word hstarts (left ++ rest))
  rw [hcut, List.append_assoc, List.append_assoc, hpast] at h ⊢
  obtain ⟨hplace, -⟩ := Cursor.mk.inj h
  rw [hplace]

end Cursor

/-! ### Start tags -/

/-- Unless a slash stands before the end of the tag, blanks and slashes are passed over. -/
theorem skipBetween_cons {c : Char} (h : c = '/' → text.head? ≠ some '>') :
    skipBetween offset (c :: text) =
      if isTagBlank c || c == '/' then skipBetween (offset + c.utf8Size) text
      else ⟨offset, c :: text⟩ := by
  rw [skipBetween]
  rintro more hc rfl
  exact h hc rfl

theorem skipBetween_swap (hleft : left ≠ []) (hslash : left ≠ ['/'])
    (h : skipBetween offset (text ++ rest) = ⟨place, left ++ rest⟩) (other : List Char) :
    skipBetween offset (text ++ other) = ⟨place, left ++ other⟩ := by
  -- something was passed over or stands there still, so the text is not empty
  have hne : ∀ {offset text}, skipBetween offset (text ++ rest) = ⟨place, left ++ rest⟩ →
      text ≠ [] := by
    rintro offset text h rfl
    have hlength := length_skipBetween_le offset ([] ++ rest)
    have hpos := List.length_pos_iff.2 hleft
    rw [h, List.nil_append, List.length_append] at hlength
    omega
  induction text generalizing offset with
  | nil => exact absurd rfl (hne h)
  | cons c text ih =>
    rw [List.cons_append] at h ⊢
    by_cases hend : c = '/' ∧ (text ++ rest).head? = some '>'
    · obtain ⟨rfl, hgt⟩ := hend
      obtain ⟨more, hmore⟩ : ∃ more, text ++ rest = '>' :: more := List.head?_eq_some_iff.1 hgt
      have hstay : skipBetween offset ('/' :: (text ++ rest)) =
          ⟨offset, '/' :: (text ++ rest)⟩ := by
        rw [hmore]
        rfl
      obtain ⟨rfl, hrest⟩ := Cursor.mk.inj (hstay.symm.trans h)
      rw [← List.cons_append, List.append_cancel_right_eq] at hrest
      subst hrest
      cases text with
      | nil => exact absurd rfl hslash
      | cons d text =>
        obtain ⟨rfl, -⟩ := List.cons.inj hmore
        rfl
    · have hstay : c = '/' → (text ++ rest).head? ≠ some '>' := fun hc hgt => hend ⟨hc, hgt⟩
      rw [skipBetween_cons hstay] at h
      split at h
      · next hskip =>
        obtain ⟨d, text, rfl⟩ := List.exists_cons_of_ne_nil (hne h)
        have hstay : c = '/' → (d :: text ++ other).head? ≠ some '>' := hstay
        rw [skipBetween_cons hstay, if_pos hskip]
        exact ih h
      · next hskip =>
        obtain ⟨rfl, hrest⟩ := Cursor.mk.inj h
        rw [← List.cons_append, List.append_cancel_right_eq] at hrest
        have hc : c ≠ '/' := by
          rintro rfl
          exact hskip rfl
        rw [skipBetween_cons fun heq => absurd heq hc, if_neg hskip, ← hrest, List.cons_append]

/-- Every cursor stands in some text. -/
theorem Cursor.exists_standsIn (cursor : Cursor) : ∃ text, cursor.StandsIn text := by
  have hsize : ∀ n, byteSize (List.replicate n ' ') = n := by
    intro n
    induction n with
    | zero => rfl
    | succ n ih =>
      rw [List.replicate_succ, byteSize_cons, ih, Nat.add_comm]
      rfl
  exact ⟨List.replicate cursor.offset ' ' ++ cursor.rest, _, rfl, by rw [hsize, Nat.zero_add]⟩

/-- The move over a value that starts with a character. -/
def skipValue (offset : Nat) (first : Char) (more : List Char) : Cursor :=
  if first = '"' ∨ first = '\'' then (Cursor.mk (offset + first.utf8Size) more).skipPast [first]
  else skipFrom inBareValue offset (first :: more)

theorem valueAt_of_nil (h : skipFrom isTagBlank offset text = ⟨place, []⟩) :
    valueAt ⟨offset, text⟩ = (none, ⟨place, []⟩) := by
  rw [valueAt, Cursor.skipWhile]
  dsimp only
  rw [h]

theorem valueAt_of_cons {c : Char} {more : List Char}
    (h : skipFrom isTagBlank offset text = ⟨place, c :: more⟩) :
    valueAt ⟨offset, text⟩ =
      (some ⟨place, (skipValue place c more).offset⟩, skipValue place c more) := by
  rw [valueAt, Cursor.skipWhile]
  dsimp only
  rw [h]
  rfl

theorem passes_skipValue (offset : Nat) (c : Char) (more : List Char) :
    ∃ passed, Passes ⟨offset, c :: more⟩ passed (skipValue offset c more) := by
  unfold skipValue
  split
  · obtain ⟨passed, hpassed⟩ := (Cursor.mk (offset + c.utf8Size) more).passes_skipPast [c]
    exact ⟨_, hpassed.cons⟩
  · exact ⟨_, passes_skipFrom _ _ _⟩

theorem skipValue_swap {c : Char} (hleft : left ≠ [])
    (h : skipValue offset c (text ++ rest) = ⟨place, left ++ rest⟩) (other : List Char) :
    skipValue offset c (text ++ other) = ⟨place, left ++ other⟩ := by
  unfold skipValue at h ⊢
  split at h
  · next hquote =>
    rw [if_pos hquote]
    exact skipPast_swap hleft h other
  · next hquote =>
    rw [if_neg hquote]
    rw [← List.cons_append] at h ⊢
    exact skipFrom_swap hleft h other

theorem passes_valueAt (cursor : Cursor) : ∃ passed, Passes cursor passed (valueAt cursor).2 := by
  obtain ⟨_, hstands⟩ := cursor.exists_standsIn
  exact (valueAt_standsIn hstands).1

theorem valueAt_swap {value : Option Extent} (hleft : left ≠ [])
    (h : valueAt ⟨offset, text ++ rest⟩ = (value, ⟨place, left ++ rest⟩)) (other : List Char) :
    valueAt ⟨offset, text ++ other⟩ = (value, ⟨place, left ++ other⟩) := by
  have hblanks := passes_skipFrom isTagBlank offset (text ++ rest)
  cases hfirst : skipFrom isTagBlank offset (text ++ rest) with
  | mk here more =>
    rw [hfirst] at hblanks
    cases more with
    | nil =>
      rw [valueAt_of_nil hfirst] at h
      exact absurd (List.append_eq_nil_iff.1 (Cursor.mk.inj (Prod.mk.inj h).2).2.symm).1 hleft
    | cons c more =>
      rw [valueAt_of_cons hfirst] at h
      obtain ⟨rfl, hskip⟩ := Prod.mk.inj h
      obtain ⟨passed, hpassed⟩ := passes_skipValue here c more
      rw [hskip] at hpassed
      obtain ⟨d, run, hrun⟩ := List.exists_cons_of_ne_nil
        (List.append_ne_nil_of_right_ne_nil passed hleft)
      have hmore : c :: more = passed ++ (left ++ rest) := hpassed.1
      rw [← List.append_assoc, hrun, List.cons_append] at hmore
      obtain ⟨rfl, rfl⟩ := List.cons.inj hmore
      rw [← List.cons_append] at hfirst
      have hother := skipFrom_swap (List.cons_ne_nil _ _) hfirst other
      rw [List.cons_append] at hother
      rw [valueAt_of_cons hother, skipValue_swap hleft hskip other, hskip]

/-- The move over the name of an attribute that starts with a character. -/
def skipName (offset : Nat) (first : Char) (more : List Char) : Cursor :=
  if first = '=' then ⟨offset + first.utf8Size, more⟩
  else skipFrom inAttributeName (offset + first.utf8Size) more

/-- What follows the first character in the name of an attribute. -/
def nameTail (first : Char) (more : List Char) : List Char :=
  if first = '=' then [] else more.takeWhile inAttributeName

theorem passes_skipName (offset : Nat) (first : Char) (more : List Char) :
    Passes ⟨offset, first :: more⟩ (first :: nameTail first more) (skipName offset first more) := by
  unfold skipName nameTail
  split
  · exact (Passes.refl _).cons
  · exact (passes_skipFrom _ _ _).cons

theorem skipName_eq_drop (offset : Nat) (first : Char) (more : List Char) :
    (Cursor.mk offset (first :: more)).drop ((nameTail first more).length + 1) =
      skipName offset first more := by
  have hpasses := passes_skipName offset first more
  have hstarts : first :: nameTail first more <+: (Cursor.mk offset (first :: more)).rest :=
    ⟨_, hpasses.1.symm⟩
  exact (passes_drop_word hstarts).unique hpasses

section Attributes

variable {first : Char} {more : List Char} {nameEnd : Nat}

theorem attributeAt_of_equals {value : List Char}
    (h : (skipName offset first more).skipWhile isTagBlank = ⟨place, '=' :: value⟩) :
    attributeAt first ⟨offset, first :: more⟩ =
      (⟨String.ofList (lower (first :: nameTail first more)), (valueAt ⟨place + 1, value⟩).1⟩,
        (valueAt ⟨place + 1, value⟩).2) := by
  rw [← skipName_eq_drop] at h
  unfold attributeAt
  dsimp only
  rw [← nameTail, show (first :: more).drop 1 = more from rfl, h]
  rfl

theorem attributeAt_of_ne
    (h : ((skipName offset first more).skipWhile isTagBlank).rest.head? ≠ some '=') :
    attributeAt first ⟨offset, first :: more⟩ =
      (⟨String.ofList (lower (first :: nameTail first more)), none⟩,
        skipName offset first more) := by
  rw [← skipName_eq_drop] at h ⊢
  unfold attributeAt
  dsimp only
  rw [← nameTail, show (first :: more).drop 1 = more from rfl]
  split
  · next heq => exact absurd (by rw [heq]; rfl) h
  · rfl

/-- A character that is not accepted stops a move before it, whatever follows. -/
theorem skipFrom_of_mem {p : Char → Bool} (offset : Nat) (hleft : ∃ c ∈ left, p c = false) :
    ∃ place c run, ∀ rest, skipFrom p offset (left ++ rest) = ⟨place, c :: (run ++ rest)⟩ := by
  induction left generalizing offset with
  | nil => simp at hleft
  | cons c left ih =>
    by_cases hc : p c = true
    · have hlater : ∃ d ∈ left, p d = false := by
        obtain ⟨d, hd, hpd⟩ := hleft
        rcases List.mem_cons.1 hd with rfl | hd
        · rw [hc] at hpd
          contradiction
        · exact ⟨d, hd, hpd⟩
      obtain ⟨place, d, run, hrun⟩ := ih (offset + c.utf8Size) hlater
      refine ⟨place, d, run, fun rest => ?_⟩
      rw [List.cons_append, skipFrom, if_pos hc, hrun]
    · refine ⟨offset, c, left, fun rest => ?_⟩
      rw [List.cons_append, skipFrom, if_neg hc]

theorem skipName_swap (hleft : left ≠ [])
    (h : skipName offset first (text ++ rest) = ⟨place, left ++ rest⟩) (other : List Char) :
    skipName offset first (text ++ other) = ⟨place, left ++ other⟩ ∧
      nameTail first (text ++ other) = nameTail first (text ++ rest) := by
  unfold skipName nameTail at *
  split at h
  · next hequals =>
    obtain ⟨rfl, hrest⟩ := Cursor.mk.inj h
    rw [List.append_cancel_right_eq] at hrest
    rw [if_pos hequals, if_pos hequals, if_pos hequals, hrest]
    exact ⟨rfl, rfl⟩
  · next hequals =>
    rw [if_neg hequals, if_neg hequals, if_neg hequals]
    exact ⟨skipFrom_swap hleft h other, takeWhile_swap hleft h other⟩

/-- An attribute that a character follows which is no blank is read whatever follows that. -/
theorem attributeAt_swap {entry : AttributeSpan} (hleft : ∃ c ∈ left, isTagBlank c = false)
    (h : attributeAt first ⟨offset, first :: (text ++ rest)⟩ = (entry, ⟨place, left ++ rest⟩))
    (other : List Char) :
    attributeAt first ⟨offset, first :: (text ++ other)⟩ = (entry, ⟨place, left ++ other⟩) := by
  have hne : left ≠ [] := by
    rintro rfl
    simp at hleft
  cases hname : skipName offset first (text ++ rest) with
  | mk nameEnd afterName =>
  by_cases hequals : (skipFrom isTagBlank nameEnd afterName).rest.head? = some '='
  · -- the value follows the equals sign, and both are followed by what is left
    obtain ⟨value, hvalue⟩ := List.head?_eq_some_iff.1 hequals
    cases hblanks : skipFrom isTagBlank nameEnd afterName with
    | mk equals _ =>
    rw [hblanks] at hvalue
    obtain rfl : _ = '=' :: value := hvalue
    rw [attributeAt_of_equals (by rw [hname, skipWhile, hblanks])] at h
    have hvalue := (Prod.mk.inj h).2
    obtain ⟨passed, hpassed⟩ := passes_valueAt ⟨equals + 1, value⟩
    rw [hvalue] at hpassed
    obtain rfl : value = (passed ++ left) ++ rest := by
      rw [List.append_assoc]
      exact hpassed.1
    obtain ⟨blanks, hpassed⟩ : ∃ blanks, Passes ⟨nameEnd, afterName⟩ blanks
        ⟨equals, '=' :: (passed ++ left ++ rest)⟩ := by
      rw [← hblanks]
      exact ⟨_, passes_skipFrom _ _ _⟩
    obtain rfl : afterName = (blanks ++ '=' :: (passed ++ left)) ++ rest := by
      rw [List.append_assoc]
      exact hpassed.1
    obtain ⟨hother, htail⟩ := skipName_swap (by simp) hname other
    have hequals : (skipName offset first (text ++ other)).skipWhile isTagBlank =
        ⟨equals, '=' :: (passed ++ left ++ other)⟩ := by
      rw [hother]
      exact skipFrom_swap (List.cons_ne_nil '=' (passed ++ left)) hblanks other
    rw [attributeAt_of_equals hequals, htail, valueAt_swap hne (Prod.ext rfl hvalue) other]
    exact Prod.ext (Prod.mk.inj h).1 rfl
  · -- the attribute ends with its name, and what follows is no equals sign
    rw [attributeAt_of_ne (by rw [hname]; exact hequals)] at h
    obtain ⟨rfl, hend⟩ := Prod.mk.inj h
    obtain ⟨rfl, rfl⟩ := Cursor.mk.inj (hname.symm.trans hend)
    obtain ⟨hother, htail⟩ := skipName_swap hne hname other
    obtain ⟨blankEnd, c, run, hrun⟩ := skipFrom_of_mem nameEnd hleft
    have hequals : ((skipName offset first (text ++ other)).skipWhile isTagBlank).rest.head? ≠
        some '=' := by
      rw [hother, skipWhile, hrun]
      rw [hrun] at hequals
      exact hequals
    rw [attributeAt_of_ne hequals, hother, htail]

/-- A move that ends with the text has passed over accepted characters only. -/
theorem of_mem_of_skipFrom_eq_nil {p : Char → Bool} {c : Char}
    (h : (skipFrom p offset text).rest = []) (hc : c ∈ text) : p c = true := by
  have hpassed := (passes_skipFrom p offset text).1
  rw [h, List.append_nil] at hpassed
  rw [show text = text.takeWhile p from hpassed] at hc
  exact List.all_eq_true.1 List.all_takeWhile c hc

/-- What a text that ends in a character has as its own end ends in that character too. -/
theorem suffix_right {c : Char} {before after : List Char} (h : [c] <:+ before ++ after)
    (hne : after ≠ []) : [c] <:+ after :=
  List.suffix_of_suffix_length_le h (List.suffix_append before after) (List.length_pos_iff.2 hne)

/-- An attribute at the end of a text passes over a `>` in its value only. -/
theorem attributeAt_stop_eq (hfirst : first ≠ '>')
    (h : (attributeAt first ⟨offset, first :: more⟩).2.rest = [])
    (hlast : ['>'] <:+ first :: more) :
    ∃ value ∈ (attributeAt first ⟨offset, first :: more⟩).1.value,
      value.stop = (attributeAt first ⟨offset, first :: more⟩).2.offset := by
  have hname := passes_skipName offset first more
  by_cases hequals : ((skipName offset first more).skipWhile isTagBlank).rest.head? = some '='
  · cases hblanks : (skipName offset first more).skipWhile isTagBlank with
    | mk equals _ =>
    rw [hblanks] at hequals
    obtain ⟨value, rfl⟩ := List.head?_eq_some_iff.1 hequals
    have hpassed := (hname.trans (passes_skipWhile isTagBlank _)).1
    rw [hblanks] at hpassed
    rw [attributeAt_of_equals hblanks]
    cases hvalue : skipFrom isTagBlank (equals + 1) value with
    | mk start run =>
    cases run with
    | nil =>
      -- without a value there are only blanks after the equals sign
      rw [show first :: more = _ from hpassed] at hlast
      have hmem : '>' ∈ '=' :: value :=
        (suffix_right hlast (List.cons_ne_nil _ _)).subset List.mem_cons_self
      have hblank : isTagBlank '>' = true :=
        of_mem_of_skipFrom_eq_nil (by rw [hvalue]) (List.mem_of_ne_of_mem (by decide) hmem)
      exact absurd hblank (by decide)
    | cons c run =>
      rw [valueAt_of_cons hvalue]
      exact ⟨_, rfl, rfl⟩
  · -- without an equals sign the name ends the text, and no name holds the character
    rw [attributeAt_of_ne hequals] at h
    have hall : first :: more = first :: nameTail first more := by
      have hall := hname.1
      rwa [h, List.append_nil] at hall
    have hmem : '>' ∈ nameTail first more := by
      rw [hall] at hlast
      exact List.mem_of_ne_of_mem hfirst.symm (hlast.subset List.mem_cons_self)
    unfold nameTail at hmem
    split at hmem
    · simp at hmem
    · exact absurd (List.all_eq_true.1 List.all_takeWhile _ hmem) (by decide)

end Attributes

theorem not_mem_of_skipBetween_eq_nil (h : (skipBetween offset text).rest = []) : '>' ∉ text := by
  fun_induction skipBetween offset text with
  | case1 => simp
  | case2 => simp at h
  | case3 offset c rest _ hskip ih =>
    have hc : '>' ≠ c := by
      rintro rfl
      exact absurd hskip (by decide)
    exact List.not_mem_cons_of_ne_of_not_mem hc (ih h)
  | case4 => simp at h

/-- What stands where blanks and slashes stop does not depend on what follows it. -/
theorem skipBetween_settled (hleft : left ≠ []) (hslash : left ≠ ['/'])
    (h : skipBetween offset text = ⟨place, left ++ rest⟩) :
    ∃ passed, text = passed ++ (left ++ rest) ∧
      ∀ other, skipBetween offset (passed ++ (left ++ other)) = ⟨place, left ++ other⟩ := by
  obtain ⟨passed, hpassed⟩ := passes_skipBetween offset text
  rw [h] at hpassed
  have htext : text = passed ++ (left ++ rest) := hpassed.1
  refine ⟨passed, htext, fun other => ?_⟩
  rw [htext, ← List.append_assoc] at h
  rw [← List.append_assoc]
  exact skipBetween_swap hleft hslash h other

theorem passes_attributeAt {first : Char} {more : List Char} {cursor : Cursor}
    (h : cursor.rest = first :: more) :
    ∃ passed, Passes cursor passed (attributeAt first cursor).2 := by
  obtain ⟨_, hstands⟩ := cursor.exists_standsIn
  exact (attributeAt_liesIn hstands h).1

/-- An attribute with the end of its tag further on is found whatever follows the tag. -/
theorem attributeAt_settled {first : Char} {more inner : List Char} {entry : AttributeSpan}
    {stop : Nat} (hslash : first ≠ '/')
    (hbetween : skipBetween offset text = ⟨place, first :: more⟩)
    (hread : attributeAt first ⟨place, first :: more⟩ = (entry, ⟨stop, inner ++ '>' :: rest⟩)) :
    ∃ passed run, text = passed ++ '>' :: rest ∧ ∀ other,
      skipBetween offset (passed ++ '>' :: other) = ⟨place, first :: (run ++ '>' :: other)⟩ ∧
      attributeAt first ⟨place, first :: (run ++ '>' :: other)⟩ =
        (entry, ⟨stop, inner ++ '>' :: other⟩) := by
  obtain ⟨passed, hpassed⟩ : ∃ passed,
      Passes ⟨place, first :: more⟩ passed ⟨stop, inner ++ '>' :: rest⟩ := by
    have hrest : (Cursor.mk place (first :: more)).rest = first :: more := rfl
    have hpasses := passes_attributeAt hrest
    rwa [hread] at hpasses
  -- the first character belongs to the attribute, whatever it is
  have hne : passed ≠ [] := by
    rintro rfl
    have hlength := length_attributeAt_lt first ⟨place, first :: more⟩ (List.cons_ne_nil _ _)
    have hrest : first :: more = inner ++ '>' :: rest := hpassed.1
    rw [hread, hrest] at hlength
    exact absurd hlength (lt_irrefl _)
  obtain ⟨_, run, rfl⟩ := List.exists_cons_of_ne_nil hne
  obtain ⟨rfl, rfl⟩ : _ ∧ more = run ++ (inner ++ '>' :: rest) := List.cons.inj hpassed.1
  have hmore : ∀ rest, first :: (run ++ (inner ++ '>' :: rest)) =
      first :: (run ++ inner ++ ['>']) ++ rest := by simp
  rw [hmore] at hbetween
  obtain ⟨before, htext, hother⟩ :=
    skipBetween_settled (List.cons_ne_nil _ _) (by simp [hslash]) hbetween
  refine ⟨before ++ first :: (run ++ inner), run ++ inner, by simp [htext], fun other => ⟨?_, ?_⟩⟩
  · have hstop := hother other
    simpa using hstop
  · have hread : attributeAt first ⟨place, first :: (run ++ inner ++ ['>'] ++ rest)⟩ =
        (entry, ⟨stop, inner ++ ['>'] ++ rest⟩) := by simpa using hread
    have hother := attributeAt_swap ⟨'>', by simp, by decide⟩ hread other
    simpa using hother

/-- A start tag that is closed by `>` is read whatever follows. Otherwise it ends with the text, and
if that ends in `>`, so does a value that no quote ends. -/
theorem attributesAt_settled (cursor : Cursor) :
    (∃ passed, cursor.rest = passed ++ '>' :: (attributesAt cursor).2.rest ∧
      ∀ other, attributesAt ⟨cursor.offset, passed ++ '>' :: other⟩ =
        ((attributesAt cursor).1, ⟨(attributesAt cursor).2.offset, other⟩)) ∨
    ((attributesAt cursor).2.rest = [] ∧ (['>'] <:+ cursor.rest →
      ∃ entry ∈ (attributesAt cursor).1, ∃ value ∈ entry.value,
        value.stop = (attributesAt cursor).2.offset)) := by
  fun_induction attributesAt cursor with
  | case1 cursor here hhere =>
    refine .inr ⟨hhere, fun hlast => ?_⟩
    exact absurd (hlast.subset List.mem_cons_self) (not_mem_of_skipBetween_eq_nil hhere)
  | case2 cursor here rest hhere =>
    have hbetween : skipBetween cursor.offset cursor.rest = ⟨here.offset, ['>'] ++ rest⟩ := by
      rw [List.singleton_append, ← hhere]
    obtain ⟨passed, htext, hother⟩ := skipBetween_settled (by simp) (by simp) hbetween
    have hdrop : here.drop 1 = ⟨here.offset + 1, rest⟩ := by
      rw [drop, hhere]
      rfl
    rw [hdrop]
    exact .inl ⟨passed, htext, fun other => attributesAt_of_gt (hother other)⟩
  | case3 cursor here rest hhere =>
    have hslash : skipBetween cursor.offset cursor.rest = ⟨here.offset, '/' :: rest⟩ := by
      rw [← hhere]
    obtain ⟨rest, rfl⟩ := skipBetween_slash hslash
    have hbetween : skipBetween cursor.offset cursor.rest = ⟨here.offset, ['/', '>'] ++ rest⟩ := by
      rw [List.cons_append, List.singleton_append, ← hhere]
    obtain ⟨passed, htext, hother⟩ := skipBetween_settled (by simp) (by simp) hbetween
    have hdrop : here.drop 2 = ⟨here.offset + 2, rest⟩ := by
      rw [drop, hhere]
      rfl
    rw [hdrop]
    refine .inl ⟨passed ++ ['/'], by rw [htext, List.append_assoc]; rfl, fun other => ?_⟩
    rw [List.append_assoc]
    exact attributesAt_of_slash (hother other)
  | case4 cursor here first more hgt hslash hhere found later after hlater ih =>
    rw [hlater] at ih
    have hcursor : here = ⟨here.offset, first :: more⟩ := by rw [← hhere]
    have hbetween : skipBetween cursor.offset cursor.rest = ⟨here.offset, first :: more⟩ := hcursor
    rcases ih with ⟨inner, hinner, hsettled⟩ | ⟨hend, hvalue⟩
    · -- the end of the tag follows this attribute and all later ones
      have hfound : attributeAt first ⟨here.offset, first :: more⟩ =
          (found.1, ⟨found.2.offset, inner ++ '>' :: after.rest⟩) := by
        rw [← hcursor, ← hinner]
      obtain ⟨passed, run, htext, hother⟩ := attributeAt_settled hslash hbetween hfound
      refine .inl ⟨passed, htext, fun other => ?_⟩
      obtain ⟨hstop, hread⟩ := hother other
      rw [attributesAt_of_cons hstop hgt hslash, hread, hsettled]
    · -- the text ends in this attribute or in a later one
      refine .inr ⟨hend, fun hlast => ?_⟩
      obtain ⟨before, hbefore⟩ := passes_skipBetween cursor.offset cursor.rest
      rw [show cursor.rest = before ++ here.rest from hbefore.1] at hlast
      have hlast : ['>'] <:+ here.rest := suffix_right hlast (by simp [hhere])
      by_cases hnil : found.2.rest = []
      · have hnone : attributesAt found.2 = ([], ⟨found.2.offset, []⟩) :=
          attributesAt_of_nil (by rw [hnil]; rfl)
        obtain ⟨-, rfl⟩ := Prod.mk.inj (hlater.symm.trans hnone)
        have hfound : found = attributeAt first ⟨here.offset, first :: more⟩ := by rw [← hcursor]
        rw [hfound] at hnil
        rw [hhere] at hlast
        obtain ⟨value, hvalue, hstop⟩ := attributeAt_stop_eq hgt hnil hlast
        rw [← hfound] at hvalue hstop
        exact ⟨found.1, List.mem_cons_self, value, hvalue, hstop⟩
      · obtain ⟨passed, hpassed⟩ := passes_attributeAt hhere
        rw [hpassed.1] at hlast
        obtain ⟨entry, hmem, value, hvalue, hstop⟩ := hvalue (suffix_right hlast hnil)
        exact ⟨entry, List.mem_cons_of_mem _ hmem, value, hvalue, hstop⟩

namespace TagSpan

/-- A start tag is its name and what the search for attributes finds behind that. -/
theorem ofStartTag_eq {start nameEnd : Nat}
    (h : skipFrom inTagName (start + 1) text = ⟨nameEnd, rest⟩) :
    ofStartTag start text =
      ({ name := String.ofList (lower (text.takeWhile inTagName))
         start
         nameEnd
         startTagEnd := (attributesAt ⟨nameEnd, rest⟩).2.offset
         stop := (attributesAt ⟨nameEnd, rest⟩).2.offset
         attributes := (attributesAt ⟨nameEnd, rest⟩).1 }, (attributesAt ⟨nameEnd, rest⟩).2) := by
  rw [ofStartTag, drop_length_takeWhile, h]

/-- A start tag that is closed by `>` is read whatever follows. Otherwise it ends with the text, and
if that ends in `>`, so does a value that no quote ends. -/
theorem ofStartTag_settled (start : Nat) (text : List Char) :
    (∃ passed, text = passed ++ '>' :: (ofStartTag start text).2.rest ∧
      ∀ other, ofStartTag start (passed ++ '>' :: other) =
        ((ofStartTag start text).1, ⟨(ofStartTag start text).2.offset, other⟩)) ∨
    ((ofStartTag start text).2.rest = [] ∧ (['>'] <:+ text →
      ∃ entry ∈ (ofStartTag start text).1.attributes, ∃ value ∈ entry.value,
        value.stop = (ofStartTag start text).2.offset)) := by
  have hname := passes_skipFrom inTagName (start + 1) text
  cases hafter : skipFrom inTagName (start + 1) text with
  | mk nameEnd rest =>
  rw [hafter] at hname
  obtain ⟨name, hnames⟩ : ∃ name, text.takeWhile inTagName = name := ⟨_, rfl⟩
  have htext : text = name ++ rest := by
    rw [← hnames]
    exact hname.1
  have hattributes := attributesAt_settled ⟨nameEnd, rest⟩
  rw [ofStartTag_eq hafter, hnames]
  generalize attributesAt ⟨nameEnd, rest⟩ = found at hattributes ⊢
  rcases hattributes with ⟨passed, hrest, hother⟩ | ⟨hnil, hvalue⟩
  · refine .inl ⟨name ++ passed, by rw [htext, List.append_assoc, ← hrest], fun other => ?_⟩
    have hrest : rest = passed ++ ['>'] ++ found.2.rest := by
      rw [List.append_assoc]
      exact hrest
    have hwhole : skipFrom inTagName (start + 1) (name ++ (passed ++ ['>']) ++ found.2.rest) =
        ⟨nameEnd, passed ++ ['>'] ++ found.2.rest⟩ := by
      rw [List.append_assoc, ← hrest, ← htext, hafter]
    have htext' : name ++ passed ++ '>' :: other = name ++ (passed ++ ['>']) ++ other := by simp
    have hsame := takeWhile_swap (by simp) hwhole other
    rw [List.append_assoc _ _ found.2.rest, ← hrest, ← htext, hnames] at hsame
    rw [htext', ofStartTag_eq (skipFrom_swap (by simp) hwhole other), hsame, List.append_assoc,
      List.singleton_append, hother]
  · refine .inr ⟨hnil, fun hlast => hvalue ?_⟩
    rw [htext] at hlast
    refine suffix_right hlast ?_
    -- the name itself does not hold the character
    rintro rfl
    rw [List.append_nil, ← hnames] at hlast
    exact absurd (List.all_eq_true.1 List.all_takeWhile _ (hlast.subset List.mem_cons_self))
      (by decide)

end TagSpan

end ElementLint.Span
