import ElementLint.Markup.Parse
import ElementLint.Proofs.Markup.Outline
import ElementLint.Proofs.Markup.Token

/-!
# Custom elements in the body

While a body is read whose innermost open element has a hyphen in its name or is the body itself
(`Builder.Inside`), text and comments are added to that element, a start tag with a hyphen opens a
new one inside it (`Builder.Inside.add_startTag`), and its own end tag closes it
(`Builder.Inside.add_endTag`). Nothing is implied or moved: the tree only grows inside the element
(`Builder.Gains`).
-/

namespace ElementLint.Markup

namespace Builder

variable {b : Builder} {id : DraftId} {name : String} {attributes : List Attribute} {token : Token}

/-! ### Names with a hyphen -/

theorem ne_of_hyphen_mem (h : '-' ∈ name.toList) {other : String} (hother : '-' ∉ other.toList) :
    name ≠ other := by
  rintro rfl
  exact hother h

/-- No start tag with a hyphen in its name has rules of its own in the body. -/
theorem startRule_of_hyphen_mem (h : '-' ∈ name.toList) : StartRule.ofName name = .other := by
  unfold StartRule.ofName
  split <;> first | rfl | exact absurd h (by decide +kernel)

/-- No end tag with a hyphen in its name has rules of its own in the body. -/
theorem endRule_of_hyphen_mem (h : '-' ∈ name.toList) : EndRule.ofName name = .other := by
  unfold EndRule.ofName
  split <;> first | rfl | exact absurd h (by decide +kernel)

/-! ### Steps in the body -/

/-- The body is read, and an element of HTML that is no template is the innermost open one. -/
structure Inside (b : Builder) (id : DraftId) : Prop where
  mode : b.mode = .inBody
  content : b.content = .markup
  skipNewline : b.skipNewline = false
  formatting : b.formatting = []
  fostering : b.fostering = false
  templateModes : b.templateModes = []
  opened : ∃ name below, b.opened = ⟨id, name⟩ :: below ∧ name.vocabulary = .html
  outline : ∃ tag children, b.draft.outline? id = some (.element tag, children)

/-- The draft grows inside a node, and but for that a state stays what it is. -/
def Gains (b b' : Builder) (id : DraftId) (tags : List String) : Prop :=
  ∃ draft framesetAllowed, b' = { b with draft, framesetAllowed } ∧ b.draft.Grows draft id tags

theorem Gains.refl (b : Builder) (id : DraftId) : Gains b b id [] :=
  ⟨b.draft, b.framesetAllowed, rfl, .refl _ _⟩

/-- Adds a last child of a node, an element of HTML, and opens it. -/
def openInside (b : Builder) (id : DraftId) (name : String) (attributes : List Attribute) :
    Builder :=
  { b with
    draft := b.draft.addInside id (.element ⟨.html, name⟩ attributes none)
    opened := ⟨b.draft.nodes.size, ⟨.html, name⟩⟩ :: b.opened }

theorem settle_of_step {b' : Builder} {rounds : Nat} (h : b.step token = b'.done) :
    settle (rounds + 1) token b = b' := by
  rw [settle, h]
  rfl

namespace Inside

theorem lt_size (h : Inside b id) : id < b.draft.nodes.size := by
  obtain ⟨tag, children, houtline⟩ := h.outline
  exact Draft.lt_size_of_outline? houtline

/-- What grows inside the element does not change where the body is read. -/
theorem of_gains (h : Inside b id) {b' : Builder} {tags : List String}
    (hgains : Gains b b' id tags) : Inside b' id := by
  obtain ⟨draft, framesetAllowed, rfl, hgrows⟩ := hgains
  obtain ⟨tag, children, houtline⟩ := h.outline
  obtain ⟨new, hchildren, -⟩ := hgrows.grown
  exact { h with outline := ⟨tag, children ++ new, hchildren _ _ houtline⟩ }

theorem place_eq (h : Inside b id) : b.place = .inside id := by
  obtain ⟨name, below, hopened, -⟩ := h.opened
  obtain ⟨tag, children, houtline⟩ := h.outline
  have hcontent : b.draft.contentOf id = id := Draft.contentOf_eq_self houtline
  simp [place, hopened, placeIn, h.fostering, hcontent]

theorem step_eq (h : Inside b id) (token : Token) : b.step token = stepBody token b := by
  obtain ⟨name, below, hopened, hvocabulary⟩ := h.opened
  -- the rules for foreign content do not apply in an element of HTML
  have hforeign : b.isForeign token = false := by
    simp [isForeign, hopened, hvocabulary]
  rw [step, hforeign]
  simp [stepMode, h.mode]

theorem reopenFormatting_eq (h : Inside b id) : b.reopenFormatting = b := by
  obtain ⟨-, -, -, hformatting, -⟩ := h
  cases b
  simp_all [reopenFormatting]

theorem reset_eq (h : Inside b id) :
    { b with skipNewline := false, content := .markup } = b := by
  obtain ⟨-, hcontent, hskip, -⟩ := h
  cases b
  simp_all

/-- A token is used up by one step of the rules in the body. -/
theorem add_eq (h : Inside b id) {b' : Builder} (hstep : stepBody token b = b'.done)
    (htoken : token ≠ .fault) (hdoctype : ∀ doctype, token ≠ .doctype doctype) :
    b.add token = b' := by
  have hsettle : settle (8 * b.opened.length + 16) token b = b' :=
    settle_of_step ((h.step_eq token).trans hstep)
  rw [add.eq_def]
  dsimp only
  rw [h.reset_eq]
  cases token with
  | fault => contradiction
  | doctype doctype => exact absurd rfl (hdoctype doctype)
  | blank run =>
    dsimp only
    split
    · -- a line feed is only dropped behind a tag that asks for it
      rw [h.skipNewline]
      exact hsettle
    · exact hsettle
  | _ => exact hsettle

/-- Characters are added as text. -/
theorem gains_add_characters (h : Inside b id) (htoken : token.IsCharacters) :
    Gains b (b.add token) id [] := by
  have htext (run : String) : b.draft.Grows (b.draft.insertText b.place run) id [] := by
    rw [h.place_eq]
    exact .insertText h.lt_size run
  cases token with
  | blank run =>
    refine ⟨_, b.framesetAllowed, h.add_eq ?_ (by simp) (by simp), htext run⟩
    rw [stepBody, h.reopenFormatting_eq]
    rfl
  | text run =>
    -- from here on no frameset may replace the body
    refine ⟨_, false, h.add_eq ?_ (by simp) (by simp), htext run⟩
    rw [stepBody, h.reopenFormatting_eq]
    rfl
  | null => exact ⟨_, _, h.add_eq rfl (by simp) (by simp), .refl _ _⟩
  | fault => exact ⟨_, _, h.reset_eq, .refl _ _⟩
  | _ => contradiction

/-- A comment is added as such. -/
theorem gains_add_comment (h : Inside b id) (text : String) :
    Gains b (b.add (.comment text)) id [] := by
  refine ⟨b.draft.addInside id (.leaf (.comment text)), b.framesetAllowed,
    h.add_eq ?_ (by simp) (by simp), .addLeaf h.lt_size _⟩
  rw [stepBody, addComment, addCommentAt, h.place_eq]
  rfl

/-- A start tag with a hyphen in its name opens an element. -/
theorem stepBody_startTag (h : Inside b id) (hname : '-' ∈ name.toList)
    (attributes : List Attribute) :
    stepBody (.startTag ⟨name, attributes, false⟩) b = (b.openInside id name attributes).done := by
  have hne : name ≠ "template" := ne_of_hyphen_mem hname (by decide)
  have htemplate : (ElementName.mk .html name).isHtml "template" = false := by
    simp [ElementName.isHtml, hne]
  have hstep : stepBody (.startTag ⟨name, attributes, false⟩) b =
      (b.reopenFormatting.openTag ⟨name, attributes, false⟩).done := by
    rw [stepBody, stepBodyStart, startRule_of_hyphen_mem hname]
  -- nothing is reopened, and a template alone would get a second node
  rw [hstep, h.reopenFormatting_eq, openTag, openElement, addElement, h.place_eq,
    Draft.createElement, htemplate]
  rfl

theorem add_startTag (h : Inside b id) (hname : '-' ∈ name.toList) (attributes : List Attribute) :
    b.add (.startTag ⟨name, attributes, false⟩) = b.openInside id name attributes :=
  h.add_eq (h.stepBody_startTag hname attributes) (by simp) (by simp)

/-- The body is then read inside that element. -/
theorem openInside (h : Inside b id) (name : String) (attributes : List Attribute) :
    Inside (b.openInside id name attributes) b.draft.nodes.size := by
  have houtline : (b.openInside id name attributes).draft.outline? b.draft.nodes.size =
      some (.element name, []) := by
    rw [Builder.openInside, Draft.outline?_addInside h.lt_size, if_pos rfl]
    rfl
  exact { h with opened := ⟨_, _, rfl, rfl⟩, outline := ⟨name, [], houtline⟩ }

/-- An end tag with a hyphen in its name closes the innermost element if that has its name. -/
theorem add_endTag (h : Inside b id) (hname : '-' ∈ name.toList) {below : List OpenElement}
    (hopened : b.opened = ⟨id, ⟨.html, name⟩⟩ :: below) :
    b.add (.endTag name) = { b with opened := below } := by
  refine h.add_eq ?_ (by simp) (by simp)
  have hself : (ElementName.mk .html name).isHtml name = true := by
    simp [ElementName.isHtml]
  rw [stepBody, stepBodyEnd, endRule_of_hyphen_mem hname]
  simp [closeOther, hopened, hself]

/-- One growth after the other. -/
theorem gains_trans (h : Inside b id) {b' b'' : Builder} {tags tags' : List String}
    (hfirst : Gains b b' id tags) (hsecond : Gains b' b'' id tags') :
    Gains b b'' id (tags ++ tags') := by
  obtain ⟨draft, framesetAllowed, rfl, hgrows⟩ := hfirst
  obtain ⟨draft', framesetAllowed', rfl, hgrows'⟩ := hsecond
  exact ⟨draft', framesetAllowed', rfl, hgrows.trans hgrows' h.lt_size⟩

theorem gains_foldl_add (h : Inside b id) {tokens : List Token}
    (htokens : ∀ token ∈ tokens, token.IsCharacters) : Gains b (tokens.foldl add b) id [] := by
  induction tokens generalizing b with
  | nil => exact .refl b id
  | cons token tokens ih =>
    obtain ⟨htoken, htokens⟩ := List.forall_mem_cons.1 htokens
    have hfirst := h.gains_add_characters htoken
    exact h.gains_trans hfirst (ih (h.of_gains hfirst) htokens)

end Inside

end Builder

end ElementLint.Markup
