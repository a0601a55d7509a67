import ElementLint.Proofs.Markup.Body

/-!
# Reading trees of custom elements

A text that is written from elements with a hyphen in their names is read back as what it was
written from (`Markup.tags_parse_write`): no such element is implied, dropped or moved. What a
forest adds inside an open element is known from what its parts add (`Builder.adds_forest`).
-/

namespace ElementLint

namespace Span.Written

/-- Every element of a forest has a hyphen in its name, and every comment ends where it is written
to end. -/
def Forest.IsCustom : Forest → Prop
  | .nil => True
  | .text _ _ rest => rest.IsCustom
  | .comment run _ rest => Markup.IsPlainComment run ∧ rest.IsCustom
  | .element name _ children rest => '-' ∈ name.text ∧ children.IsCustom ∧ rest.IsCustom

/-- The names of the elements of a forest in preorder. -/
def Forest.names : Forest → List String
  | .nil => []
  | .text _ _ rest => rest.names
  | .comment _ _ rest => rest.names
  | .element name _ children rest => String.ofList name.text :: (children.names ++ rest.names)

theorem names_spans (forest : Forest) (place : Nat) :
    (forest.spans place).map (·.name) = forest.names := by
  induction forest generalizing place with
  | nil => rfl
  | text _ _ _ ih => exact ih _
  | comment _ _ _ ih => exact ih _
  | element name attributes children rest ihChildren ihRest =>
    rw [Forest.spans, Forest.names, List.map_cons, List.map_append, ihChildren, ihRest]
    rfl

theorem Forest.hyphen_mem_names {forest : Forest} (h : forest.IsCustom) :
    ∀ name ∈ forest.names, '-' ∈ name.toList := by
  induction forest with
  | nil => simp [Forest.names]
  | text _ _ _ ih => exact ih h
  | comment _ _ _ ih => exact ih h.2
  | element name attributes children rest ihChildren ihRest =>
    obtain ⟨hname, hchildren, hrest⟩ := h
    refine List.forall_mem_cons.2 ⟨by rwa [String.toList_ofList], ?_⟩
    exact List.forall_mem_append.2 ⟨ihChildren hchildren, ihRest hrest⟩

end Span.Written

namespace Markup

namespace Builder

variable {b b' b'' : Builder} {id : DraftId} {name : String} {attributes : List Attribute}
  {token : Token} {tokens : List Token} {starts : List Nat} {text text' text'' rest : List Char}
  {tags tags' : List String}

/-! ### Reading -/

/-- The reading of a text goes on to another state and another text. -/
def Reaches (starts : List Nat) (b : Builder) (text : List Char) (b' : Builder)
    (text' : List Char) : Prop :=
  ∀ steps, text.length < steps →
    ∃ steps', text'.length < steps' ∧ read steps starts text b = read steps' starts text' b'

theorem Reaches.refl (starts : List Nat) (b : Builder) (text : List Char) :
    Reaches starts b text b text :=
  fun steps hsteps => ⟨steps, hsteps, rfl⟩

theorem Reaches.trans (h : Reaches starts b text b' text')
    (h' : Reaches starts b' text' b'' text'') : Reaches starts b text b'' text'' := by
  intro steps hsteps
  obtain ⟨steps', hsteps', heq⟩ := h steps hsteps
  obtain ⟨steps'', hsteps'', heq'⟩ := h' steps' hsteps'
  exact ⟨steps'', hsteps'', heq.trans heq'⟩

/-- The next tokens are added. -/
theorem read_next (hcontent : b.content = .markup)
    (hnext : Token.next starts .markup b.inForeign text = (tokens, rest)) (hne : text ≠ [])
    (steps : Nat) :
    read (steps + 1) starts text b = read steps starts rest (tokens.foldl add b) := by
  have hself : { b with content := .markup } = b := by
    cases b
    simp_all
  obtain ⟨c, text, rfl⟩ := List.exists_cons_of_ne_nil hne
  rw [read, hcontent, hnext]
  dsimp only
  rw [hself]
  rfl

theorem reaches_next (hcontent : b.content = .markup)
    (hnext : Token.next starts .markup b.inForeign text = (tokens, rest))
    (hlt : rest.length < text.length) : Reaches starts b text (tokens.foldl add b) rest := by
  intro steps hsteps
  obtain ⟨steps, rfl⟩ : ∃ more, steps = more + 1 := Nat.exists_eq_succ_of_ne_zero (by omega)
  have hne : text ≠ [] := List.ne_nil_of_length_pos (by omega)
  exact ⟨steps, by omega, read_next hcontent hnext hne steps⟩

/-- Wherever the body is read, a text is read up to a rest, and that adds elements of these tags. -/
def Adds (starts : List Nat) (text rest : List Char) (tags : List String) : Prop :=
  ∀ b id, Inside b id → ∃ b', Reaches starts b text b' rest ∧ Gains b b' id tags

theorem Adds.refl (starts : List Nat) (text : List Char) : Adds starts text text [] :=
  fun b id _ => ⟨b, .refl _ _ _, .refl b id⟩

theorem Adds.trans (h : Adds starts text text' tags) (h' : Adds starts text' text'' tags') :
    Adds starts text text'' (tags ++ tags') := by
  intro b id hb
  obtain ⟨b', hreaches, hgains⟩ := h b id hb
  obtain ⟨b'', hreaches', hgains'⟩ := h' b' id (hb.of_gains hgains)
  exact ⟨b'', hreaches.trans hreaches', hb.gains_trans hgains hgains'⟩

/-- A text before the first tag adds no element. -/
theorem adds_text (starts : List Nat) (text : List Char) :
    Adds starts text (text.dropWhile (· != '<')) [] := by
  intro b id h
  obtain - | ⟨c, text⟩ := text
  · exact ⟨b, .refl _ _ _, .refl b id⟩
  · by_cases hc : c = '<'
    · subst hc
      exact ⟨b, .refl _ _ _, .refl b id⟩
    · obtain ⟨tokens, hnext, htokens⟩ := next_characters hc starts b.inForeign text
      refine ⟨_, reaches_next h.content hnext ?_, h.gains_foldl_add htokens⟩
      rw [List.dropWhile_cons_of_pos (by simpa using hc), List.length_cons]
      exact Nat.lt_succ_of_le (List.dropWhile_sublist _).length_le

/-- A comment adds no element. -/
theorem adds_comment {run : List Char} (hrun : IsPlainComment run) (starts : List Nat)
    (rest : List Char) : Adds starts (Span.Written.writeComment run ++ rest) rest [] := by
  intro b id h
  obtain ⟨body, hnext⟩ := next_comment starts b.inForeign hrun rest
  refine ⟨_, reaches_next h.content hnext ?_, h.gains_add_comment body⟩
  simp [Span.Written.writeComment]
  omega

/-- An element with a hyphen in its name adds itself and what is inside it. -/
theorem adds_element {name : Span.Written.ElementName} (hname : '-' ∈ name.text)
    (attributes : List Span.Written.Attribute) {inner : List Char}
    (hinner : Adds starts (inner ++ (Span.Written.endTag name ++ rest))
      (Span.Written.endTag name ++ rest) tags) :
    Adds starts (Span.Written.startTag name attributes ++
        (inner ++ (Span.Written.endTag name ++ rest))) rest (String.ofList name.text :: tags) := by
  intro b id h
  have hhyphen : '-' ∈ (String.ofList name.text).toList := by rwa [String.toList_ofList]
  obtain ⟨read, hnext⟩ := next_startTag starts b.inForeign name attributes
    (inner ++ (Span.Written.endTag name ++ rest))
  have hopen := reaches_next h.content hnext (by simp [Span.Written.startTag]; omega)
  rw [List.foldl_cons, List.foldl_nil, h.add_startTag hhyphen] at hopen
  -- the new element is the innermost one up to its end tag
  have hinside := h.openInside (String.ofList name.text) read
  obtain ⟨b', hreaches, hgains⟩ := hinner _ _ hinside
  have hinside' := hinside.of_gains hgains
  obtain ⟨draft, framesetAllowed, rfl, hgrows⟩ := hgains
  have hclose := reaches_next hinside'.content (next_endTag starts _ name rest)
    (by simp [Span.Written.endTag]; omega)
  rw [List.foldl_cons, List.foldl_nil, hinside'.add_endTag hhyphen rfl] at hclose
  refine ⟨_, hopen.trans (hreaches.trans hclose), draft, framesetAllowed, rfl, ?_⟩
  exact Draft.Grows.addElement h.lt_size ⟨.html, String.ofList name.text⟩ read hgrows

/-- A forest of custom elements adds its elements, also after the text before the first tag. -/
theorem adds_forest (forest : Span.Written.Forest) (hcustom : forest.IsCustom) (starts : List Nat)
    {tail : List Char} (htail : tail.dropWhile (· != '<') = tail) :
    Adds starts ((forest.write ++ tail).dropWhile (· != '<')) tail forest.names := by
  -- the tail changes on the way down: behind the children comes the end tag of their parent
  induction forest generalizing tail with
  | nil =>
    rw [Span.Written.Forest.write, List.nil_append, htail]
    exact .refl _ _
  | text run hrun rest ih =>
    have hdrop : (run ++ (rest.write ++ tail)).dropWhile (· != '<') =
        (rest.write ++ tail).dropWhile (· != '<') := by
      refine List.dropWhile_append_of_pos fun c hc => ?_
      simpa using fun heq : c = '<' => hrun (heq ▸ hc)
    rw [Span.Written.Forest.write, List.append_assoc, hdrop]
    exact ih hcustom htail
  | comment run hrun rest ih =>
    obtain ⟨hplain, hrest⟩ := hcustom
    rw [Span.Written.Forest.write, List.append_assoc]
    exact (adds_comment hplain starts _).trans ((adds_text starts _).trans (ih hrest htail))
  | element name attributes children rest ihChildren ihRest =>
    obtain ⟨hname, hchildren, hrest⟩ := hcustom
    -- the text in front of the end tag ends at its bracket
    have hend : (Span.Written.endTag name ++ (rest.write ++ tail)).dropWhile (· != '<') =
        Span.Written.endTag name ++ (rest.write ++ tail) := rfl
    have hinner := (adds_text starts _).trans (ihChildren hchildren hend)
    have helement := adds_element hname attributes hinner
    rw [Span.Written.Forest.write, List.append_assoc, List.append_assoc, List.append_assoc]
    exact helement.trans ((adds_text starts _).trans (ihRest hrest htail))

/-! ### The start of the body -/

/-- The state in which a tag that belongs into the body is found if it comes first: the root, the
head and the body have been supplied. -/
def bodyStart : Builder :=
  let root := { start with oldDocument := true, mode := .beforeHtml }.openRoot []
  let head := { root with mode := .beforeHead }.openHead []
  let afterHead := { head.pop with mode := .afterHead }
  { afterHead.openImplied "body" with mode := .inBody }

theorem inside_bodyStart : Inside bodyStart 3 where
  mode := rfl
  content := rfl
  skipNewline := rfl
  formatting := rfl
  fostering := rfl
  templateModes := rfl
  opened := ⟨_, _, rfl, rfl⟩
  outline := ⟨"body", [], rfl⟩

theorem settle_again {rounds : Nat} (h : b.step token = ⟨b', true⟩) :
    settle (rounds + 1) token b = settle rounds token b' := by
  rw [settle, h]
  rfl

section

variable (hname : '-' ∈ name.toList)
include hname

theorem stepBeforeHtml_of_hyphen_mem (b : Builder) :
    stepBeforeHtml (.startTag ⟨name, attributes, false⟩) b =
      (b.openRoot []).again .beforeHead :=
  if_neg (ne_of_hyphen_mem hname (by decide))

theorem stepBeforeHead_of_hyphen_mem (b : Builder) :
    stepBeforeHead (.startTag ⟨name, attributes, false⟩) b = (b.openHead []).again .inHead := by
  unfold stepBeforeHead
  dsimp only
  split <;> first | rfl | exact absurd hname (by decide +kernel)

theorem stepHead_of_hyphen_mem (b : Builder) :
    stepHead (.startTag ⟨name, attributes, false⟩) b = b.pop.again .afterHead := by
  unfold stepHead
  dsimp only
  split <;> first | rfl | exact absurd hname (by decide +kernel)

theorem stepAfterHead_of_hyphen_mem (b : Builder) :
    stepAfterHead (.startTag ⟨name, attributes, false⟩) b =
      (b.openImplied "body").again .inBody := by
  have hhead : belongsToHead name = false := by
    have hnone : ∀ other ∈ ["base", "basefont", "bgsound", "link", "meta", "noframes", "script",
        "style", "template", "title"], '-' ∉ other.toList := by decide +kernel
    refine Bool.eq_false_iff.2 fun hmem => hnone name ?_ hname
    exact List.contains_iff_mem.1 hmem
  unfold stepAfterHead
  dsimp only
  split
  all_goals first | exact absurd hname (by decide +kernel) | skip
  rw [hhead]
  rfl

/-- A start tag with a hyphen in its name that comes first supplies what the text leaves out. -/
theorem start_add_startTag (attributes : List Attribute) :
    start.add (.startTag ⟨name, attributes, false⟩) =
      bodyStart.openInside 3 name attributes := by
  let token := Token.startTag ⟨name, attributes, false⟩
  let beforeHtml := { start with oldDocument := true, mode := .beforeHtml }
  let beforeHead := { beforeHtml.openRoot [] with mode := .beforeHead }
  let inHead := { beforeHead.openHead [] with mode := .inHead }
  let afterHead := { inHead.pop with mode := .afterHead }
  have hinitial : start.step token = ⟨beforeHtml, true⟩ := rfl
  have hbeforeHtml : beforeHtml.step token = ⟨beforeHead, true⟩ :=
    stepBeforeHtml_of_hyphen_mem hname beforeHtml
  have hbeforeHead : beforeHead.step token = ⟨inHead, true⟩ :=
    stepBeforeHead_of_hyphen_mem hname beforeHead
  have hinHead : inHead.step token = ⟨afterHead, true⟩ := stepHead_of_hyphen_mem hname inHead
  have hafterHead : afterHead.step token = ⟨bodyStart, true⟩ :=
    stepAfterHead_of_hyphen_mem hname afterHead
  have hbody : bodyStart.step token = (bodyStart.openInside 3 name attributes).done :=
    (inside_bodyStart.step_eq token).trans (inside_bodyStart.stepBody_startTag hname attributes)
  -- the token is looked at again after each part that is supplied
  change settle 16 token start = _
  rw [settle_again hinitial, settle_again hbeforeHtml, settle_again hbeforeHead,
    settle_again hinHead, settle_again hafterHead, settle_of_step hbody]

end

/-- A text that starts with a start tag is read as in the body. -/
theorem read_start {name : Span.Written.ElementName} (hname : '-' ∈ name.text)
    (attributes : List Span.Written.Attribute) (rest : List Char) (starts : List Nat)
    (steps : Nat) :
    start.read (steps + 1) starts (Span.Written.startTag name attributes ++ rest) =
      bodyStart.read (steps + 1) starts (Span.Written.startTag name attributes ++ rest) := by
  have hhyphen : '-' ∈ (String.ofList name.text).toList := by rwa [String.toList_ofList]
  obtain ⟨read, hnext⟩ := next_startTag starts false name attributes rest
  have hne : Span.Written.startTag name attributes ++ rest ≠ [] := by simp [Span.Written.startTag]
  rw [read_next rfl hnext hne, read_next rfl hnext hne, List.foldl_cons, List.foldl_nil,
    List.foldl_cons, List.foldl_nil, start_add_startTag hhyphen,
    inside_bodyStart.add_startTag hhyphen]

/-- The end of the text leaves the body as it is. -/
theorem Inside.add_endOfText (h : Inside b id) : b.add .endOfText = b := by
  refine h.add_eq ?_ (by simp) (by simp)
  rw [stepBody, h.templateModes]
  rfl

/-- What grows in the body of a document comes behind the elements that have been supplied. -/
theorem tags_toForest_of_gains {b : Builder} {tags : List String} (h : Gains bodyStart b 3 tags) :
    b.draft.toForest.tags = "html" :: "head" :: "body" :: tags := by
  obtain ⟨draft, -, rfl, -, hkept, new, hbody, hnew⟩ := h
  have hdocument : draft.outline? Draft.document = some (.root, [1]) :=
    hkept 0 (by decide) (by decide)
  have hroot : draft.outline? 1 = some (.element "html", [2, 3]) :=
    hkept 1 (by decide) (by decide)
  have hhead : draft.outline? 2 = some (.element "head", []) := hkept 2 (by decide) (by decide)
  have hbody : draft.outline? 3 = some (.element "body", new) := hbody _ [] rfl
  have hholds : draft.Holds 0 [1] ("html" :: (("head" :: ([] ++ "body" :: (tags ++ []))) ++ [])) :=
    .element (by decide) hroot
      (.element (by decide) hhead .nil (.element (by decide) hbody hnew .nil)) .nil
  rw [Draft.tags_toForest hdocument hholds]
  simp

end Builder

/-! ### Whole texts -/

theorem flatten_extendFirst (c : Char) (parts : List (List Char)) :
    (extendFirst c parts).flatten = c :: parts.flatten := by
  cases parts <;> rfl

/-- The parts of a text are what it is cut into. -/
theorem flatten_partsAfter (room beyond : Nat) (text : List Char) :
    (partsAfter room beyond text).flatten = text := by
  induction text generalizing room beyond with
  | nil => rfl
  | cons c text ih =>
    rw [partsAfter]
    split
    · rw [flatten_extendFirst, ih]
    · rw [List.flatten_cons, flatten_extendFirst, ih, List.nil_append]

/-- A text without a byte order mark is taken in as it is. -/
theorem text_ofText {text : List Char} (h : '\ufeff' ∉ text) :
    (Source.ofText text).text = text := by
  have hdrop {part : List Char} (hpart : '\ufeff' ∉ part) : dropMark part = part := by
    unfold dropMark
    split
    · exact absurd List.mem_cons_self hpart
    · rfl
  have hparts (parts : List (List Char)) (hparts : ∀ part ∈ parts, '\ufeff' ∉ part) :
      (parts.foldr (fun part => Source.cons (dropMark part)) ⟨[], []⟩).text = parts.flatten := by
    induction parts with
    | nil => rfl
    | cons part parts ih =>
      obtain ⟨hpart, hrest⟩ := List.forall_mem_cons.1 hparts
      rw [List.foldr_cons, Source.cons, List.flatten_cons, hdrop hpart, ih hrest]
  rw [Source.ofText, hparts, flatten_partsAfter]
  intro part hpart hmem
  rw [← flatten_partsAfter blockSize 0 text] at h
  exact h (List.mem_flatten_of_mem hpart hmem)

/-- The tree of a text that is written from custom elements, one of them in front, has these
elements behind those that are supplied. -/
theorem tags_parse_write (name : Span.Written.ElementName)
    (attributes : List Span.Written.Attribute) (children rest : Span.Written.Forest) :
    let forest : Span.Written.Forest := .element name attributes children rest
    forest.IsCustom → '\ufeff' ∉ forest.write →
      (parse forest.write).tags = "html" :: "head" :: "body" :: forest.names := by
  intro forest hcustom hmark
  have hname : '-' ∈ name.text := hcustom.1
  have hwrite : (forest.write ++ []).dropWhile (· != '<') = forest.write := by
    rw [List.append_nil]
    rfl
  have hadds := Builder.adds_forest forest hcustom (Source.ofText forest.write).starts
    (List.dropWhile_nil)
  rw [hwrite] at hadds
  obtain ⟨b, hreaches, hgains⟩ := hadds Builder.bodyStart 3 Builder.inside_bodyStart
  -- there is a step left for the end of the text
  obtain ⟨steps, hsteps, hread⟩ := hreaches _ (Nat.lt_succ_self _)
  obtain ⟨steps, rfl⟩ : ∃ more, steps = more + 1 := Nat.exists_eq_succ_of_ne_zero (by omega)
  have hend : b.add .endOfText = b := (Builder.inside_bodyStart.of_gains hgains).add_endOfText
  have hparse : parse forest.write = b.draft.toForest := by
    set text := forest.write with htext
    set starts := (Source.ofText text).starts
    calc parse text
        = (Builder.start.read (text.length + 1) starts text).draft.toForest := by
          rw [parse, text_ofText hmark]
      _ = (Builder.bodyStart.read (text.length + 1) starts text).draft.toForest := by
          rw [htext, Span.Written.Forest.write, Builder.read_start hname]
      _ = (b.read (steps + 1) starts []).draft.toForest := by
          rw [← Nat.succ_eq_add_one, hread]
      _ = (b.add .endOfText).draft.toForest := rfl
      _ = b.draft.toForest := by rw [hend]
  rw [hparse, Builder.tags_toForest_of_gains hgains]

end Markup

end ElementLint
