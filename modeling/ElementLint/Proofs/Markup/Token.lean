import ElementLint.Markup.Token.Next
import ElementLint.Proofs.Span.RoundTrip
import ElementLint.Proofs.Text.Pieces

/-!
# Reading what is written

The parts of a written forest are read as what they are: a start tag and an end tag as tags of their
names, a comment as a comment, and a text as characters.
-/

namespace ElementLint.Markup

open Text
open Span.Written (isNameChar ne_of_isNameChar isTagBlank_of_isNameChar writeAttributes startTag
  endTag writeComment)

variable {c : Char} {run more : List Char}

/-! ### Tags -/

theorem withoutNull_eq_self (h : ∀ c ∈ run, c ≠ '\x00') : withoutNull run = run := by
  have hmap : run.map (fun c => if c = '\x00' then replacement else c) = run.map id :=
    List.map_congr_left fun c hc => if_neg (h c hc)
  rw [withoutNull, hmap, List.map_id]

theorem tagWord_of_isNameChar (h : ∀ c ∈ run, isNameChar c = true) :
    tagWord run = String.ofList run := by
  have hnull : withoutNull run = run :=
    withoutNull_eq_self fun c hc => ne_of_isNameChar (h c hc) rfl
  rw [tagWord, Span.Written.lower_eq_self h, hnull]

/-- The characters that go on with the name of an attribute. -/
theorem inName_of_isNameChar (h : isNameChar c = true) :
    (!isTagBlank c && c != '/' && c != '=' && c != '>') = true := by
  rw [isTagBlank_of_isNameChar h, bne_iff_ne.2 (ne_of_isNameChar h (d := '/') rfl),
    bne_iff_ne.2 (ne_of_isNameChar h (d := '=') rfl),
    bne_iff_ne.2 (ne_of_isNameChar h (d := '>') rfl)]
  rfl

/-- A value in quotes is read to its end. -/
theorem cutValue_write (value : Span.Written.Value) (more : List Char) :
    (cutValue (value.write ++ more)).2 = more := by
  obtain ⟨quote, text, hquote, hmem⟩ := value
  have hrun : ∀ c ∈ text, (c != quote) = true := fun c hc => by
    simpa using fun heq : c = quote => hmem (heq ▸ hc)
  have hdrop : (text ++ quote :: more).dropWhile (· != quote) = quote :: more :=
    dropWhile_append_eq hrun (by simp)
  rcases hquote with rfl | rfl <;> simp [Span.Written.Value.write, cutValue, hdrop]

/-- An attribute is read to its end, and with the blanks behind it if it has no value. -/
theorem cutAttribute_write (starts : List Nat) (entry : Span.Written.Attribute)
    (hmore : ∀ c ∈ more.head?, c = ' ' ∨ c = '>')
    (hequals : ∀ text, more.dropWhile isTagBlank ≠ '=' :: text) :
    ∃ first text, entry.write ++ more = ' ' :: first :: text ∧ isNameChar first = true ∧
      ((cutAttribute starts first text).2 = more ∨
        (cutAttribute starts first text).2 = more.dropWhile isTagBlank) := by
  obtain ⟨⟨text, hne, hall⟩, value⟩ := entry
  have hchars := List.all_eq_true.1 hall
  obtain ⟨first, tail, rfl⟩ := List.exists_cons_of_ne_nil hne
  have htail : ∀ c ∈ tail, (!isTagBlank c && c != '/' && c != '=' && c != '>') = true :=
    fun c hc => inName_of_isNameChar (hchars c (List.mem_cons_of_mem _ hc))
  have hfirst := hchars first List.mem_cons_self
  cases value with
  | none =>
    refine ⟨first, tail ++ more, by simp [Span.Written.Attribute.write], hfirst, .inr ?_⟩
    have hdrop : (tail ++ more).dropWhile
        (fun c => !isTagBlank c && c != '/' && c != '=' && c != '>') = more := by
      refine dropWhile_append_eq htail fun c hc => ?_
      rcases hmore c hc with rfl | rfl <;> rfl
    -- behind a bare name the reader looks for an equals sign beyond the blanks
    rw [cutAttribute]
    dsimp only
    rw [hdrop]
    split
    · next text htext => exact absurd htext (hequals text)
    · rfl
  | some value =>
    refine ⟨first, tail ++ '=' :: (value.write ++ more), by simp [Span.Written.Attribute.write],
      hfirst, .inl ?_⟩
    have hdrop : (tail ++ '=' :: (value.write ++ more)).dropWhile
        (fun c => !isTagBlank c && c != '/' && c != '=' && c != '>') =
        '=' :: (value.write ++ more) :=
      dropWhile_append_eq htail (by simp)
    have hblank : isTagBlank value.quote = false := by
      rcases value.quote_eq with hquote | hquote <;> rw [hquote] <;> rfl
    have hpass : (passBlanks starts false (value.write ++ more)).2 = value.write ++ more := by
      simp [Span.Written.Value.write, passBlanks, hblank]
    have hequals : ('=' :: (value.write ++ more)).dropWhile isTagBlank =
        '=' :: (value.write ++ more) := rfl
    rw [cutAttribute]
    dsimp only
    rw [hdrop, hequals]
    change (cutValue (passBlanks starts false (value.write ++ more)).2).2 = more
    rw [hpass]
    exact cutValue_write value more

theorem head?_writeAttributes (attributes : List Span.Written.Attribute) (rest : List Char) :
    ∀ c ∈ (writeAttributes attributes ++ '>' :: rest).head?, c = ' ' ∨ c = '>' := by
  cases attributes with
  | nil => simp [writeAttributes]
  | cons entry _ => simp [writeAttributes, Span.Written.Attribute.write]

/-- No equals sign comes next in what follows an attribute. -/
theorem dropWhile_writeAttributes_ne (attributes : List Span.Written.Attribute)
    (rest text : List Char) :
    (writeAttributes attributes ++ '>' :: rest).dropWhile isTagBlank ≠ '=' :: text := by
  have hspace : isTagBlank ' ' = true := rfl
  cases attributes with
  | nil => simp [writeAttributes, isTagBlank]
  | cons entry attributes =>
    obtain ⟨⟨text, hne, hall⟩, value⟩ := entry
    obtain ⟨first, tail, rfl⟩ := List.exists_cons_of_ne_nil hne
    have hfirst := List.all_eq_true.1 hall first List.mem_cons_self
    simp [writeAttributes, Span.Written.Attribute.write, hspace,
      isTagBlank_of_isNameChar hfirst, ne_of_isNameChar hfirst (d := '=') rfl]

theorem cutAttributes_blank (starts : List Nat) (steps : Nat) (found : List Attribute)
    (text : List Char) :
    cutAttributes starts (steps + 1) found (' ' :: text) =
      cutAttributes starts steps found text := by
  rfl

/-- An attribute that starts with a character of a name is read, and is added if it is new. -/
theorem exists_cutAttributes_eq (hc : isNameChar c = true) (starts : List Nat) (steps : Nat)
    (found : List Attribute) (text : List Char) :
    ∃ found', cutAttributes starts (steps + 1) found (c :: text) =
      cutAttributes starts steps found' (cutAttribute starts c text).2 := by
  have hblank : isTagBlank c = false := isTagBlank_of_isNameChar hc
  have hslash : c ≠ '/' := ne_of_isNameChar hc rfl
  have hend : c ≠ '>' := ne_of_isNameChar hc rfl
  have hstep : cutAttributes starts (steps + 1) found (c :: text) =
      if found.any (·.name == (cutAttribute starts c text).1.name) then
        cutAttributes starts steps found (cutAttribute starts c text).2
      else cutAttributes starts steps ((cutAttribute starts c text).1 :: found)
        (cutAttribute starts c text).2 := by
    simp [cutAttributes, hblank, hslash]
  rw [hstep]
  split
  · exact ⟨_, rfl⟩
  · exact ⟨_, rfl⟩

/-- The attributes of a start tag are read to its end, also after the blanks in front of them. -/
theorem cutAttributes_write (starts : List Nat) (attributes : List Span.Written.Attribute)
    (rest : List Char) {steps : Nat} (hsteps : (writeAttributes attributes).length < steps)
    (found : List Attribute) :
    (∃ read, cutAttributes starts steps found (writeAttributes attributes ++ '>' :: rest) =
      some (read, false, rest)) ∧
    ∃ read, cutAttributes starts steps found
        ((writeAttributes attributes ++ '>' :: rest).dropWhile isTagBlank) =
      some (read, false, rest) := by
  induction attributes generalizing steps found with
  | nil =>
    obtain ⟨steps, rfl⟩ : ∃ more, steps = more + 1 := Nat.exists_eq_succ_of_ne_zero (by omega)
    exact ⟨⟨found.reverse, rfl⟩, ⟨found.reverse, rfl⟩⟩
  | cons entry attributes ih =>
    obtain ⟨first, text, hwrite, hfirst, hcut⟩ := cutAttribute_write starts entry
      (head?_writeAttributes attributes rest) (dropWhile_writeAttributes_ne attributes rest)
    have hall : writeAttributes (entry :: attributes) ++ '>' :: rest = ' ' :: first :: text := by
      rw [← hwrite, writeAttributes, List.flatMap_cons, List.append_assoc]
      rfl
    have hlength : 2 + (writeAttributes attributes).length ≤
        (writeAttributes (entry :: attributes)).length := by
      obtain ⟨_, _, hname⟩ := List.exists_cons_of_ne_nil entry.name.ne_nil
      simp only [writeAttributes, List.flatMap_cons, Span.Written.Attribute.write, hname,
        List.length_append, List.length_cons]
      omega
    -- the attribute is read from its name on, and the others from there on
    have hread {steps : Nat} (hsteps : (writeAttributes attributes).length < steps) :
        ∃ read, cutAttributes starts (steps + 1) found (first :: text) =
          some (read, false, rest) := by
      obtain ⟨found', hfound⟩ := exists_cutAttributes_eq hfirst starts steps found text
      obtain ⟨hwhole, hrest⟩ := ih hsteps found'
      rw [hfound]
      rcases hcut with hcut | hcut
      · rwa [hcut]
      · rwa [hcut]
    obtain ⟨steps, rfl⟩ : ∃ more, steps = more + 2 := ⟨steps - 2, by omega⟩
    rw [hall]
    refine ⟨?_, ?_⟩
    · rw [cutAttributes_blank]
      exact hread (by omega)
    · have hdrop : (' ' :: first :: text).dropWhile isTagBlank = first :: text := by
        have hspace : isTagBlank ' ' = true := rfl
        simp [hspace, isTagBlank_of_isNameChar hfirst]
      rw [hdrop]
      exact hread (by omega)

/-- A tag is read with its name up to its end. -/
theorem cutTag_write (starts : List Nat) (name : Span.Written.ElementName)
    (attributes : List Span.Written.Attribute) (rest : List Char) :
    ∃ read, cutTag starts (name.text ++ (writeAttributes attributes ++ '>' :: rest)) =
      some (⟨String.ofList name.text, read, false⟩, rest) := by
  have hname : ∀ c ∈ name.text, (!isTagBlank c && c != '/' && c != '>') = true :=
    fun c hc => Span.Written.inTagName_of_isNameChar (name.chars c hc)
  have hrest : ∀ c ∈ (writeAttributes attributes ++ '>' :: rest).head?,
      (!isTagBlank c && c != '/' && c != '>') = false :=
    Span.Written.inTagName_head_writeAttributes attributes rest
  rw [cutTag]
  dsimp only
  rw [takeWhile_append_eq hname hrest, dropWhile_append_eq hname hrest,
    tagWord_of_isNameChar name.chars]
  have hlength : (writeAttributes attributes).length <
      (name.text ++ (writeAttributes attributes ++ '>' :: rest)).length + 1 := by
    simp only [List.length_append]
    omega
  obtain ⟨⟨read, hread⟩, -⟩ := cutAttributes_write starts attributes rest hlength []
  exact ⟨read, by rw [hread, Option.map_some]⟩

/-! ### Tokens -/

theorem isAlpha_first (name : Span.Written.ElementName) : name.first.isAlpha = true := by
  change (name.first.isUpper || name.first.isLower) = true
  rw [name.first_lower, Bool.or_true]

/-- A start tag is read as what it is. -/
theorem next_startTag (starts : List Nat) (characterData : Bool) (name : Span.Written.ElementName)
    (attributes : List Span.Written.Attribute) (rest : List Char) :
    ∃ read, Token.next starts .markup characterData (startTag name attributes ++ rest) =
      ([.startTag ⟨String.ofList name.text, read, false⟩], rest) := by
  obtain ⟨read, hread⟩ := cutTag_write starts name attributes rest
  rw [Span.Written.ElementName.text, List.cons_append] at hread
  have halpha := isAlpha_first name
  have hne {c : Char} (hc : c.isAlpha = false) : name.first ≠ c := by
    rintro rfl
    rw [halpha] at hc
    contradiction
  have hdeclaration : name.first ≠ '!' := hne rfl
  have hslash : name.first ≠ '/' := hne rfl
  have hquestion : name.first ≠ '?' := hne rfl
  refine ⟨read, ?_⟩
  simp [startTag, Span.Written.ElementName.text, Token.next, Token.afterLess, hslash, halpha, hread]

/-- An end tag is read as what it is. -/
theorem next_endTag (starts : List Nat) (characterData : Bool) (name : Span.Written.ElementName)
    (rest : List Char) :
    Token.next starts .markup characterData (endTag name ++ rest) =
      ([.endTag (String.ofList name.text)], rest) := by
  obtain ⟨read, hread⟩ := cutTag_write starts name [] rest
  rw [Span.Written.ElementName.text, List.cons_append] at hread
  have halpha := isAlpha_first name
  have hend : name.first ≠ '>' := by
    intro heq
    rw [heq] at halpha
    contradiction
  simp only [writeAttributes, List.flatMap_nil, List.nil_append] at hread
  simp [endTag, Span.Written.ElementName.text, Token.next, Token.afterLess, halpha, hread]

/-- A text is cut at the first place where something is found. -/
theorem cutWhere_append {stop : List Char → Bool} {rest : List Char}
    (hrun : ∀ last, last <:+ run → last ≠ [] → stop (last ++ rest) = false)
    (hrest : stop rest = true) : cutWhere stop (run ++ rest) = (run, rest) := by
  induction run with
  | nil =>
    cases rest with
    | nil => rfl
    | cons c rest => simp [cutWhere, hrest]
  | cons c run ih =>
    have hfirst := hrun (c :: run) (List.suffix_refl _) (List.cons_ne_nil _ _)
    rw [List.cons_append] at hfirst
    rw [List.cons_append, cutWhere, hfirst,
      ih fun last hlast => hrun last (hlast.trans (List.suffix_cons c run))]
    rfl

/-- The text of a comment that ends where it is written to end. -/
structure IsPlainComment (run : List Char) : Prop where
  not_end : ¬ ['-', '-', '>'] <:+: run
  not_bang : ¬ ['-', '-', '!', '>'] <:+: run
  not_abrupt : ¬ ['>'] <+: run ∧ ¬ ['-', '>'] <+: run

/-- The other end of a comment does not start in a comment and end behind it. -/
theorem not_bang_prefix_of_suffix (h : ¬ ['-', '-', '!', '>'] <:+: run) {last rest : List Char}
    (hlast : last <:+ run) (hne : last ≠ []) :
    ¬ ['-', '-', '!', '>'] <+: last ++ (['-', '-', '>'] ++ rest) := by
  match last with
  | [] => contradiction
  | [a] => simp
  | [a, b] => simp
  | [a, b, c] => simp
  | a :: b :: c :: d :: more =>
    intro hstarts
    simp only [List.cons_append, List.cons_prefix_cons] at hstarts
    obtain ⟨rfl, rfl, rfl, rfl, -⟩ := hstarts
    exact h ((List.prefix_append ['-', '-', '!', '>'] more).isInfix.trans hlast.isInfix)

/-- A comment is read as what it is. -/
theorem next_comment (starts : List Nat) (characterData : Bool) (h : IsPlainComment run)
    (rest : List Char) :
    ∃ body, Token.next starts .markup characterData (writeComment run ++ rest) =
      ([.comment body], rest) := by
  have hcut : cutWhere (fun rest => "-->".toList.isPrefixOf rest || "--!>".toList.isPrefixOf rest)
      (run ++ (['-', '-', '>'] ++ rest)) = (run, ['-', '-', '>'] ++ rest) := by
    refine cutWhere_append (fun last hlast hne => ?_) rfl
    rw [Bool.or_eq_false_iff, ← Bool.not_eq_true, ← Bool.not_eq_true, List.isPrefixOf_iff_prefix,
      List.isPrefixOf_iff_prefix]
    exact ⟨Span.Written.not_prefix_of_suffix h.not_end hlast hne,
      not_bang_prefix_of_suffix h.not_bang hlast hne⟩
  have hcomment : ∃ body, cutComment (run ++ (['-', '-', '>'] ++ rest)) = (body, rest) := by
    unfold cutComment
    split
    · next heq =>
      obtain - | ⟨c, run⟩ := run
      · simp at heq
      · obtain ⟨rfl, -⟩ := List.cons.inj heq
        exact absurd (by simp) h.not_abrupt.1
    · next heq =>
      obtain - | ⟨c, - | ⟨d, run⟩⟩ := run
      · simp at heq
      · simp at heq
      · simp only [List.cons_append, List.cons.injEq] at heq
        obtain ⟨rfl, rfl, -⟩ := heq
        exact absurd (by simp) h.not_abrupt.2
    · dsimp only
      rw [hcut]
      exact ⟨_, rfl⟩
  obtain ⟨body, hbody⟩ := hcomment
  refine ⟨body, ?_⟩
  have htext : writeComment run ++ rest =
      '<' :: '!' :: '-' :: '-' :: (run ++ (['-', '-', '>'] ++ rest)) := by
    simp [writeComment]
  have hdeclaration : Token.declaration starts characterData
      ('-' :: '-' :: (run ++ (['-', '-', '>'] ++ rest))) = ([.comment body], rest) := by
    simp only [Token.declaration, List.drop_succ_cons, List.drop_zero, hbody]
    rfl
  rw [htext]
  exact hdeclaration

/-- Whether a token stands for characters of a text. -/
def Token.IsCharacters : Token → Prop
  | .blank _ | .text _ | .null | .fault => True
  | _ => False

theorem isCharacters_ofPieces (pieces : List Piece) :
    ∀ token ∈ Token.ofPieces pieces, token.IsCharacters := by
  have hflush (blanks : Bool) (run : List Char) :
      ∀ token ∈ Token.ofPiecesAfter.flush blanks run, token.IsCharacters := by
    rw [Token.ofPiecesAfter.flush]
    split
    · simp
    · cases blanks <;> simp [Token.ofRun, Token.IsCharacters]
  have hafter (blanks : Bool) (run : List Char) :
      ∀ token ∈ Token.ofPiecesAfter blanks run pieces, token.IsCharacters := by
    induction pieces generalizing blanks run with
    | nil => exact hflush blanks run
    | cons piece pieces ih =>
      cases piece with
      | fault =>
        rw [Token.ofPiecesAfter]
        exact List.forall_mem_append.2 ⟨hflush blanks run, List.forall_mem_cons.2 ⟨trivial, ih _ _⟩⟩
      | char c =>
        rw [Token.ofPiecesAfter]
        split
        · exact List.forall_mem_append.2
            ⟨hflush blanks run, List.forall_mem_cons.2 ⟨trivial, ih _ _⟩⟩
        · split
          · exact ih _ _
          · exact List.forall_mem_append.2 ⟨hflush blanks run, ih _ _⟩
  exact hafter true []

/-- A text is read up to the next tag. -/
theorem next_characters (hc : c ≠ '<') (starts : List Nat) (characterData : Bool)
    (text : List Char) :
    ∃ tokens, Token.next starts .markup characterData (c :: text) =
        (tokens, (c :: text).dropWhile (· != '<')) ∧ ∀ token ∈ tokens, token.IsCharacters := by
  refine ⟨_, ?_, isCharacters_ofPieces (decode false ((c :: text).takeWhile (· != '<')))⟩
  simp [Token.next, hc]

end ElementLint.Markup
