import ElementLint.Text.Extent
import ElementLint.Proofs.Text.Slice

/-!
# Texts with gaps

Some extents of a text are taken out of it: `Text.without` is what is left, and `Text.placeWithout`
tells where a place of the text is found then. `Text.Parts` sorts the gaps by two places of the
text; a text that is made of parts is gone through by going from its gaps to those of a part
(`Text.Parts.front`, `Text.Parts.split`).
-/

namespace ElementLint.Text

/-- The characters of a text that lie in none of some extents. The text starts at `offset`. -/
def without (gaps : List Extent) (offset : Nat) : List Char → List Char
  | [] => []
  | c :: rest =>
    if gaps.any (fun gap => decide (gap.start ≤ offset) && decide (offset < gap.stop))
    then without gaps (offset + c.utf8Size) rest
    else c :: without gaps (offset + c.utf8Size) rest

/-- The number of bytes in some extents. -/
def totalSize : List Extent → Nat
  | [] => 0
  | gap :: gaps => gap.stop - gap.start + totalSize gaps

/-- Where a place of a text is found when some extents are taken out of the text: as many bytes
before as lie in the extents up to the place. -/
def placeWithout (gaps : List Extent) (place : Nat) : Nat :=
  place - totalSize (gaps.filter (·.stop ≤ place))

variable {gaps first second : List Extent} {gap : Extent} {offset place : Nat}
  {text : List Char}

/-! ### What is left -/

theorem without_append (gaps : List Extent) (offset : Nat) (before after : List Char) :
    without gaps offset (before ++ after) =
      without gaps offset before ++ without gaps (offset + byteSize before) after := by
  induction before generalizing offset with
  | nil => rfl
  | cons c rest ih =>
    rw [List.cons_append, without, without, ih, byteSize_cons, Nat.add_assoc]
    split <;> rfl

/-- A text to which no gap comes stays as it is. -/
theorem without_eq_self
    (h : ∀ gap ∈ gaps, gap.stop ≤ offset ∨ offset + byteSize text ≤ gap.start) :
    without gaps offset text = text := by
  induction text generalizing offset with
  | nil => rfl
  | cons c rest ih =>
    have hpos := c.utf8Size_pos
    simp only [byteSize_cons] at h
    rw [without, if_neg, ih fun gap hmem => by have := h gap hmem; omega]
    simp only [List.any_eq_true, Bool.and_eq_true, decide_eq_true_eq, not_exists]
    rintro gap ⟨hmem, hstart, hstop⟩
    have := h gap hmem
    omega

/-- Nothing is left of a text in a gap. -/
theorem without_eq_nil (hmem : gap ∈ gaps) (hstart : gap.start ≤ offset)
    (hstop : offset + byteSize text ≤ gap.stop) : without gaps offset text = [] := by
  induction text generalizing offset with
  | nil => rfl
  | cons c rest ih =>
    have hpos := c.utf8Size_pos
    rw [byteSize_cons] at hstop
    rw [without, if_pos, ih (by omega) (by omega)]
    simp only [List.any_eq_true, Bool.and_eq_true, decide_eq_true_eq]
    exact ⟨gap, hmem, hstart, by omega⟩

/-! ### Places -/

@[simp]
theorem totalSize_nil : totalSize [] = 0 := rfl

@[simp]
theorem totalSize_append (first second : List Extent) :
    totalSize (first ++ second) = totalSize first + totalSize second := by
  induction first with
  | nil => simp
  | cons gap first ih => rw [List.cons_append, totalSize, totalSize, ih, Nat.add_assoc]

/-- A place behind some gaps and before all others moves by the size of the former. -/
theorem placeWithout_append (hfirst : ∀ gap ∈ first, gap.stop ≤ place)
    (hsecond : ∀ gap ∈ second, place < gap.stop) :
    placeWithout (first ++ second) place = place - totalSize first := by
  have hbefore : first.filter (·.stop ≤ place) = first :=
    List.filter_eq_self.2 fun gap hmem => decide_eq_true (hfirst gap hmem)
  have hbehind : second.filter (·.stop ≤ place) = [] :=
    List.filter_eq_nil_iff.2 fun gap hmem => by
      have := hsecond gap hmem
      simp only [decide_eq_true_eq]
      omega
  rw [placeWithout, List.filter_append, hbefore, hbehind, List.append_nil]

/-! ### The gaps in a part of a text -/

/-- Every gap has bytes and lies between two places. -/
def Between (start stop : Nat) (gaps : List Extent) : Prop :=
  ∀ gap ∈ gaps, start ≤ gap.start ∧ gap.start < gap.stop ∧ gap.stop ≤ stop

variable {start stop : Nat}

theorem Between.nil (start stop : Nat) : Between start stop [] := by
  simp [Between]

theorem Between.append (hfirst : Between start stop first) (hsecond : Between start stop second) :
    Between start stop (first ++ second) :=
  fun gap hmem => (List.mem_append.1 hmem).elim (hfirst gap) (hsecond gap)

theorem Between.mono (h : Between start stop gaps) {start' stop' : Nat} (hstart : start' ≤ start)
    (hstop : stop ≤ stop') : Between start' stop' gaps :=
  fun gap hmem => ⟨Nat.le_trans hstart (h gap hmem).1, (h gap hmem).2.1,
    Nat.le_trans (h gap hmem).2.2 hstop⟩

/-- Some gaps are those before two places, those between them, and those behind them. -/
structure Parts (gaps before inside behind : List Extent) (start stop : Nat) : Prop where
  eq_append : gaps = before ++ (inside ++ behind)
  le : start ≤ stop
  before_le : ∀ gap ∈ before, gap.stop ≤ start
  inside_between : Between start stop inside
  le_behind : ∀ gap ∈ behind, stop ≤ gap.start ∧ gap.start < gap.stop

namespace Parts

variable {before inside behind : List Extent} {middle : Nat}

theorem left (h : Parts gaps before (first ++ second) behind start stop)
    (hfirst : Between start middle first) (hsecond : Between middle stop second)
    (hstart : start ≤ middle) (hstop : middle ≤ stop) :
    Parts gaps before first (second ++ behind) start middle where
  eq_append := by rw [h.eq_append, List.append_assoc]
  le := hstart
  before_le := h.before_le
  inside_between := hfirst
  le_behind := by
    intro gap hmem
    rcases List.mem_append.1 hmem with hmem | hmem
    · exact ⟨(hsecond gap hmem).1, (hsecond gap hmem).2.1⟩
    · exact ⟨Nat.le_trans hstop (h.le_behind gap hmem).1, (h.le_behind gap hmem).2⟩

theorem right (h : Parts gaps before (first ++ second) behind start stop)
    (hfirst : Between start middle first) (hsecond : Between middle stop second)
    (hstart : start ≤ middle) (hstop : middle ≤ stop) :
    Parts gaps (before ++ first) second behind middle stop where
  eq_append := by rw [h.eq_append, List.append_assoc, List.append_assoc]
  le := hstop
  before_le := by
    intro gap hmem
    rcases List.mem_append.1 hmem with hmem | hmem
    · exact Nat.le_trans (h.before_le gap hmem) hstart
    · exact (hfirst gap hmem).2.2
  inside_between := hsecond
  le_behind := h.le_behind

/-- Nothing is left out before some place. -/
theorem front (h : Parts gaps before inside behind start stop)
    (hinside : Between middle stop inside) (hstart : start ≤ middle) (hstop : middle ≤ stop) :
    Parts gaps before [] (inside ++ behind) start middle ∧
      Parts gaps before inside behind middle stop := by
  have hparts : Parts gaps before ([] ++ inside) behind start stop := h
  have hleft := hparts.left (.nil start middle) hinside hstart hstop
  have hright := hparts.right (.nil start middle) hinside hstart hstop
  rw [List.append_nil] at hright
  exact ⟨hleft, hright⟩

/-- The gaps of an element are those of its children and that of its own end tag, with those of
what follows it behind them. -/
theorem split {children own more : List Extent} {inside outside after : Nat}
    (h : Parts gaps before (children ++ (own ++ more)) behind start stop)
    (hchildren : Between inside outside children) (hown : Between outside after own)
    (hmore : Between after stop more) (hinside : start ≤ inside) (houtside : inside ≤ outside)
    (hafter : outside ≤ after) (hstop : after ≤ stop) :
    Parts gaps before [] (children ++ (own ++ more) ++ behind) start inside ∧
      Parts gaps before children (own ++ more ++ behind) inside outside ∧
      Parts gaps (before ++ children) own (more ++ behind) outside after ∧
      Parts gaps (before ++ children ++ own) more behind after stop := by
  have hrest := (hown.mono (Nat.le_refl _) hstop).append (hmore.mono hafter (Nat.le_refl _))
  have hall := (hchildren.mono (Nat.le_refl _) (Nat.le_trans hafter hstop)).append
    (hrest.mono houtside (Nat.le_refl _))
  obtain ⟨hopening, hbody⟩ := h.front hall hinside (by omega)
  have hbehind := hbody.right hchildren hrest houtside (by omega)
  exact ⟨hopening, hbody.left hchildren hrest houtside (by omega),
    hbehind.left hown hmore hafter hstop, hbehind.right hown hmore hafter hstop⟩

/-- Where there are no gaps, nothing is taken out. -/
theorem without_eq_self (h : Parts gaps before [] behind start (start + byteSize text)) :
    without gaps start text = text := by
  refine Text.without_eq_self fun gap hmem => ?_
  rw [h.eq_append, List.nil_append] at hmem
  rcases List.mem_append.1 hmem with hmem | hmem
  · exact .inl (h.before_le gap hmem)
  · exact .inr (h.le_behind gap hmem).1

/-- Where there are no gaps, all places move by the size of the gaps before them. -/
theorem placeWithout_eq (h : Parts gaps before [] behind start stop) (hstart : start ≤ place)
    (hstop : place ≤ stop) : placeWithout gaps place = place - totalSize before := by
  rw [h.eq_append, List.nil_append]
  refine placeWithout_append (fun gap hmem => Nat.le_trans (h.before_le gap hmem) hstart) ?_
  intro gap hmem
  have := h.le_behind gap hmem
  omega

/-- The start of the gaps between two places moves by the size of the gaps before it. -/
theorem placeWithout_start (h : Parts gaps before inside behind start stop) :
    placeWithout gaps start = start - totalSize before := by
  have hle := h.le
  rw [h.eq_append]
  refine placeWithout_append h.before_le fun gap hmem => ?_
  rcases List.mem_append.1 hmem with hmem | hmem
  · have := h.inside_between gap hmem
    omega
  · have := h.le_behind gap hmem
    omega

end Parts

end ElementLint.Text
