import ElementLint.Proofs.Text.Slice
import ElementLint.Text.SourceMap
import Mathlib.Data.List.Induction
import Mathlib.Order.Nat

/-!
# Lines and columns

The binary search finds the last line that does not start behind an offset
(`SourceMap.lineOf_add_one`). Its number is the number of line feeds among the bytes before the
offset, and the column is the number of characters behind the last of them. So an offset between two
characters is known from its position, and positions are ordered as the offsets are
(`SourceMap.position_counts`).
-/

namespace ElementLint

open Text

/-- The order of positions: by lines, and in a line by columns. -/
def Position.Before (position other : Position) : Prop :=
  position.line < other.line ∨ position.line = other.line ∧ position.column < other.column

theorem Position.Before.asymm {position other : Position} (h : position.Before other) :
    ¬ other.Before position := by
  simp only [Before] at *
  omega

/-- The offset of a column of the line with the given number: so many lines are passed, and then as
many characters as the column says. -/
def Position.offsetIn (text : List Char) (column : Nat) : Nat → Nat
  | 0 => byteSize (text.take column)
  | line + 1 =>
    let first := text.takeWhile (· != '\n')
    byteSize first + 1 + offsetIn (text.drop (first.length + 1)) column line

namespace Text

/-- The bytes of a text. -/
def utf8 (text : List Char) : List UInt8 :=
  text.flatMap String.utf8EncodeChar

/-- A text that ends where a line starts. -/
def EndsLine (text : List Char) : Prop :=
  ∀ c ∈ text.getLast?, c = '\n'

variable {text before first line after : List Char} {c : Char} {offset : Nat}

/-! ### Bytes -/

@[simp]
theorem utf8_nil : utf8 [] = [] := rfl

@[simp]
theorem utf8_cons (c : Char) (text : List Char) :
    utf8 (c :: text) = String.utf8EncodeChar c ++ utf8 text :=
  List.flatMap_cons

theorem utf8_append (first second : List Char) :
    utf8 (first ++ second) = utf8 first ++ utf8 second :=
  List.flatMap_append

/-- A line feed is one byte. -/
@[simp]
theorem utf8Size_lineFeed : '\n'.utf8Size = 1 := rfl

theorem length_utf8 (text : List Char) : (utf8 text).length = byteSize text := by
  induction text with
  | nil => rfl
  | cons c rest ih => rw [utf8_cons, List.length_append, String.length_utf8EncodeChar, ih]; rfl

/-- The byte of a line feed stands in no other character. -/
theorem lineFeed_mem_utf8EncodeChar : 0x0A ∈ String.utf8EncodeChar c ↔ c = '\n' := by
  constructor
  · intro h
    have hcode : c.val.toNat = 10 := by
      unfold String.utf8EncodeChar at h
      extract_lets code at h
      split at h
      case isTrue => simp [← UInt8.toNat_inj] at h; omega
      case isFalse =>
        -- of several bytes none is below 128
        split at h
        case isTrue => simp [← UInt8.toNat_inj] at h; omega
        case isFalse => split at h <;> simp [← UInt8.toNat_inj] at h <;> omega
    exact Char.ext (UInt32.toNat_inj.1 hcode)
  · rintro rfl
    decide

theorem count_utf8 (text : List Char) : (utf8 text).count 0x0A = text.count '\n' := by
  induction text with
  | nil => rfl
  | cons c rest ih =>
    rw [utf8_cons, List.count_append, ih, List.count_cons]
    by_cases hc : c = '\n'
    · subst hc
      rw [if_pos (by decide), Nat.add_comm]
      rfl
    · rw [if_neg (by simpa using hc), List.count_eq_zero.2 (mt lineFeed_mem_utf8EncodeChar.1 hc)]
      omega

/-! ### Lines -/

theorem endsLine_nil : EndsLine [] := by
  simp [EndsLine]

/-- Every text consists of whole lines and of the start of one more. -/
theorem exists_endsLine_append (text : List Char) :
    ∃ first line, text = first ++ line ∧ EndsLine first ∧ '\n' ∉ line := by
  induction text using List.reverseRecOn with
  | nil => exact ⟨[], [], rfl, endsLine_nil, by simp⟩
  | append_singleton text c ih =>
    obtain ⟨first, line, rfl, hfirst, hline⟩ := ih
    by_cases hc : c = '\n'
    · exact ⟨first ++ line ++ [c], [], by simp, by simp [EndsLine, hc], by simp⟩
    · exact ⟨first, line ++ [c], by simp, hfirst, by simp [hline, Ne.symm hc]⟩

/-- The first of several lines. -/
theorem EndsLine.exists_cons (h : EndsLine text) (hne : text ≠ []) :
    ∃ line more, text = line ++ '\n' :: more ∧ '\n' ∉ line ∧ EndsLine more := by
  have hmem : '\n' ∈ text := by
    have hlast := h _ (List.getLast?_eq_some_getLast hne)
    exact hlast ▸ List.getLast_mem hne
  obtain ⟨line, more, rfl, hline⟩ := List.eq_append_cons_of_mem hmem
  refine ⟨line, more, rfl, hline, fun c hc => h c ?_⟩
  rw [List.getLast?_append, List.getLast?_cons, Option.mem_def.1 hc]
  rfl

end Text

namespace Position

variable {text first line after : List Char}

/-- The way from a position back to its offset: whole lines, and then characters of one line. -/
theorem offsetIn_append (hfirst : EndsLine first) (line after : List Char) :
    offsetIn (first ++ (line ++ after)) line.length (first.count '\n') =
      byteSize (first ++ line) := by
  -- by induction on the lines, as the offset is found by taking one line off at a time
  induction hcount : first.count '\n' generalizing first with
  | zero =>
    have hnil : first = [] := by
      by_contra hne
      obtain ⟨_, more, rfl, -, -⟩ := hfirst.exists_cons hne
      simp at hcount
    subst hnil
    rw [offsetIn, List.nil_append, List.nil_append, List.take_left]
  | succ count ih =>
    have hne : first ≠ [] := by
      rintro rfl
      contradiction
    obtain ⟨one, more, rfl, hone, hmore⟩ := hfirst.exists_cons hne
    have htake : ((one ++ '\n' :: more) ++ (line ++ after)).takeWhile (· != '\n') = one := by
      rw [List.append_assoc, List.takeWhile_append_of_pos
        fun c hc => by simpa using ne_of_mem_of_not_mem hc hone]
      simp
    have hdrop : ((one ++ '\n' :: more) ++ (line ++ after)).drop (one.length + 1) =
        more ++ (line ++ after) := by
      simp [List.drop_append]
    rw [offsetIn, htake, hdrop, ih hmore]
    · simp only [byteSize_append, byteSize_cons, utf8Size_lineFeed]
      omega
    · rw [List.count_append, List.count_eq_zero.2 hone, List.count_cons_self] at hcount
      omega

end Position

namespace SourceMap

variable {table : Array Nat} {wanted low high count entry start offset : Nat}
  {text first line after : List Char}

/-! ### The search in a table -/

/-- A number belongs between two places of a table: what stands before the first is smaller, and
what stands from the second on is larger. -/
structure Brackets (table : Array Nat) (wanted low high : Nat) : Prop where
  low_le : low ≤ high
  high_le : high ≤ table.size
  lt_wanted : ∀ i entry, i < low → table[i]? = some entry → entry < wanted
  wanted_lt : ∀ i entry, high ≤ i → table[i]? = some entry → wanted < entry

/-- What a search has to answer. -/
def Locates (table : Array Nat) (wanted : Nat) : Except Nat Nat → Prop
  | .ok place => table[place]? = some wanted
  | .error place => Brackets table wanted place place

/-- The entries up to a number are those before some place. -/
theorem countP_toList_eq {place : Nat} (hplace : place ≤ table.size)
    (hle : ∀ i entry, i < place → table[i]? = some entry → entry ≤ wanted)
    (hlt : ∀ i entry, place ≤ i → table[i]? = some entry → wanted < entry) :
    table.toList.countP (· ≤ wanted) = place := by
  have hbefore : (table.toList.take place).countP (· ≤ wanted) = place := by
    rw [List.countP_eq_length.2, List.length_take_of_le hplace]
    intro entry hmem
    obtain ⟨i, hi⟩ := List.mem_iff_getElem?.1 hmem
    rw [List.getElem?_take, Array.getElem?_toList] at hi
    split at hi
    · next hlow => exact decide_eq_true (hle i entry hlow hi)
    · contradiction
  have hafter : (table.toList.drop place).countP (· ≤ wanted) = 0 := by
    refine List.countP_eq_zero.2 fun entry hmem => ?_
    obtain ⟨i, hi⟩ := List.mem_iff_getElem?.1 hmem
    rw [List.getElem?_drop, Array.getElem?_toList] at hi
    have := hlt _ entry (Nat.le_add_right place i) hi
    rw [decide_eq_true_iff]
    omega
  rw [← List.take_append_drop place table.toList, List.countP_append, hbefore, hafter, Nat.add_zero]

section Increasing

variable (hincreasing : table.toList.Pairwise (· < ·))
include hincreasing

theorem getElem?_lt {i j other : Nat} (hij : i < j) (hi : table[i]? = some entry)
    (hj : table[j]? = some other) : entry < other := by
  obtain ⟨hsize, rfl⟩ := Array.getElem?_eq_some_iff.1 hi
  obtain ⟨hsize', rfl⟩ := Array.getElem?_eq_some_iff.1 hj
  exact List.pairwise_iff_getElem.1 hincreasing i j hsize hsize' hij

/-- A number belongs behind a smaller entry. -/
theorem Brackets.above {middle : Nat} (h : Brackets table wanted low high) (hhigh : middle < high)
    (hentry : table[middle]? = some entry) (hlt : entry < wanted) :
    Brackets table wanted (middle + 1) high := by
  refine ⟨hhigh, h.high_le, fun i other hi hother => ?_, h.wanted_lt⟩
  rcases Nat.lt_succ_iff_lt_or_eq.1 hi with hi | rfl
  · exact (getElem?_lt hincreasing hi hother hentry).trans hlt
  · rw [hentry] at hother
    exact Option.some.inj hother ▸ hlt

/-- A number belongs before a larger entry. -/
theorem Brackets.below {middle : Nat} (h : Brackets table wanted low high) (hlow : low ≤ middle)
    (hhigh : middle < high) (hentry : table[middle]? = some entry) (hlt : wanted < entry) :
    Brackets table wanted low middle := by
  refine ⟨hlow, hhigh.le.trans h.high_le, h.lt_wanted, fun i other hi hother => ?_⟩
  rcases Nat.lt_or_eq_of_le hi with hi | rfl
  · exact hlt.trans (getElem?_lt hincreasing hi hentry hother)
  · rw [hentry] at hother
    exact Option.some.inj hother ▸ hlt

/-- The search narrows the places down until it has found the right one. -/
theorem Brackets.locates (h : Brackets table wanted low high) (hcount : high - low ≤ count) :
    Locates table wanted (search table wanted count low high) := by
  induction count generalizing low high with
  | zero =>
    obtain rfl : low = high := by
      have := h.low_le
      omega
    exact h
  | succ count ih =>
    rw [search]
    split
    case isFalse hnot =>
      obtain rfl : low = high := by
        have := h.low_le
        omega
      exact h
    case isTrue hlt =>
      extract_lets middle found
      have hlow : low ≤ middle := Nat.le_add_right _ _
      -- the middle is below `high`, so both halves are smaller
      have hhigh : middle < high := by omega
      have hfound : table[middle]? = some found := by
        have hsize : middle < table.size := hhigh.trans_le h.high_le
        simp [found, hsize]
      split
      case isTrue heq => exact hfound.trans (congrArg some heq)
      case isFalse hne =>
        split
        case isTrue hlt => exact ih (h.above hincreasing hhigh hfound hlt) (by omega)
        case isFalse hge => exact ih (h.below hincreasing hlow hhigh hfound (by omega)) (by omega)

end Increasing

/-- The line that is found is the last one of those that do not start behind the offset. -/
theorem lineOf_add_one {map : SourceMap} (hincreasing : map.lineStarts.toList.Pairwise (· < ·))
    (hfirst : map.lineStarts[0]? = some 0) :
    map.lineOf offset + 1 = map.lineStarts.toList.countP (· ≤ offset) := by
  have hall : Brackets map.lineStarts offset 0 map.lineStarts.size := by
    refine ⟨Nat.zero_le _, Nat.le_refl _, fun i entry hi _ => absurd hi (Nat.not_lt_zero _), ?_⟩
    intro i entry hi hentry
    rw [Array.getElem?_eq_none hi] at hentry
    contradiction
  have hlocates : Locates map.lineStarts offset
      (search map.lineStarts offset map.lineStarts.size 0 map.lineStarts.size) :=
    hall.locates hincreasing (Nat.sub_le _ _)
  rw [lineOf]
  split
  case h_1 line hfound =>
    rw [hfound] at hlocates
    have hentry : map.lineStarts[line]? = some offset := hlocates
    refine (countP_toList_eq (Array.getElem?_eq_some_iff.1 hentry).1
      (fun i entry hi hother => ?_) fun i entry hi hother => ?_).symm
    · rcases Nat.lt_succ_iff_lt_or_eq.1 hi with hi | rfl
      · exact (getElem?_lt hincreasing hi hother hentry).le
      · exact (Option.some.inj (hother.symm.trans hentry)).le
    · exact getElem?_lt hincreasing hi hentry hother
  case h_2 place hfound =>
    rw [hfound] at hlocates
    have hbrackets : Brackets map.lineStarts offset place place := hlocates
    -- the first line starts at zero, which no offset is before
    have hpos : 0 < place := by
      by_contra hzero
      exact Nat.not_lt_zero _ (hbrackets.wanted_lt 0 0 (by omega) hfirst)
    rw [Nat.sub_add_cancel hpos]
    exact (countP_toList_eq hbrackets.high_le
      (fun i entry hi hother => (hbrackets.lt_wanted i entry hi hother).le)
      hbrackets.wanted_lt).symm

/-! ### The table of a text -/

theorem startsFrom_cons (start : Nat) (c : Char) (rest : List Char) :
    startsFrom start (c :: rest) =
      if c = '\n' then (start + c.utf8Size) :: startsFrom (start + c.utf8Size) rest
      else startsFrom (start + c.utf8Size) rest :=
  rfl

theorem startsFrom_append (start : Nat) (first second : List Char) :
    startsFrom start (first ++ second) =
      startsFrom start first ++ startsFrom (start + byteSize first) second := by
  induction first generalizing start with
  | nil => rfl
  | cons c rest ih =>
    rw [List.cons_append, startsFrom_cons, startsFrom_cons, ih, byteSize_cons, Nat.add_assoc]
    split <;> rfl

theorem length_startsFrom (start : Nat) (text : List Char) :
    (startsFrom start text).length = text.count '\n' := by
  induction text generalizing start with
  | nil => rfl
  | cons c rest ih =>
    rw [startsFrom_cons, List.count_cons]
    split
    · next hc => simp [ih, hc]
    · next hc => simp [ih, hc]

theorem lt_of_mem_startsFrom (h : entry ∈ startsFrom start text) : start < entry := by
  induction text generalizing start with
  | nil => contradiction
  | cons c rest ih =>
    have hpos := c.utf8Size_pos
    rw [startsFrom_cons] at h
    split at h
    · rcases List.mem_cons.1 h with rfl | h
      · omega
      · have := ih h
        omega
    · have := ih h
      omega

theorem pairwise_startsFrom (start : Nat) (text : List Char) :
    (startsFrom start text).Pairwise (· < ·) := by
  induction text generalizing start with
  | nil => exact .nil
  | cons c rest ih =>
    rw [startsFrom_cons]
    split
    · exact List.pairwise_cons.2 ⟨fun entry hmem => lt_of_mem_startsFrom hmem, ih _⟩
    · exact ih _

/-- The lines that start up to an offset are as many as the line feeds among the bytes before it. -/
theorem countP_startsFrom (start offset : Nat) (text : List Char) :
    (startsFrom start text).countP (· ≤ offset) =
      ((utf8 text).take (offset - start)).count 0x0A := by
  induction text generalizing start with
  | nil => simp [startsFrom]
  | cons c rest ih =>
    have hsub : offset - start - c.utf8Size = offset - (start + c.utf8Size) := Nat.sub_sub _ _ _
    rw [startsFrom_cons, utf8_cons, List.take_append, List.count_append,
      String.length_utf8EncodeChar, hsub, ← ih]
    split
    · next hc =>
      subst hc
      have hbytes : String.utf8EncodeChar '\n' = [0x0A] := rfl
      rw [List.countP_cons, utf8Size_lineFeed, hbytes, Nat.add_comm]
      congr 1
      -- the line feed stands before the offset if the line behind it starts up to the offset
      rcases Nat.lt_or_ge start offset with hlt | hge
      · have hle : start + 1 ≤ offset := hlt
        rw [if_pos (decide_eq_true hle), List.take_of_length_le (by simp; omega)]
        rfl
      · rw [if_neg (by simp; omega), Nat.sub_eq_zero_of_le hge]
        rfl
    · next hc =>
      have hmem : 0x0A ∉ (String.utf8EncodeChar c).take (offset - start) := fun hmem =>
        hc (lineFeed_mem_utf8EncodeChar.1 (List.mem_of_mem_take hmem))
      rw [List.count_eq_zero.2 hmem, Nat.zero_add]

theorem pairwise_lineStarts (text : List Char) :
    (ofText text).lineStarts.toList.Pairwise (· < ·) :=
  List.pairwise_cons.2 ⟨fun _ hmem => lt_of_mem_startsFrom hmem, pairwise_startsFrom 0 text⟩

/-- The line of an offset is the number of line feeds among the bytes before it. -/
theorem lineOf_ofText (text : List Char) (offset : Nat) :
    (ofText text).lineOf offset = ((utf8 text).take offset).count 0x0A := by
  have hline : (ofText text).lineOf offset + 1 = (0 :: startsFrom 0 text).countP (· ≤ offset) :=
    lineOf_add_one (pairwise_lineStarts text) rfl
  rw [List.countP_cons_of_pos (by simp), countP_startsFrom] at hline
  exact Nat.succ.inj hline

/-- The line behind some whole lines starts where they end. -/
theorem lineStart_eq (hfirst : EndsLine first) (rest : List Char) :
    (ofText (first ++ rest)).lineStarts.getD (first.count '\n') 0 = byteSize first := by
  rw [Array.getD_eq_getD_getElem?, ofText, startsFrom_append, List.getElem?_toArray]
  rcases List.eq_nil_or_concat first with rfl | ⟨lines, c, rfl⟩
  · rfl
  · rw [List.concat_eq_append] at hfirst ⊢
    obtain rfl : c = '\n' := hfirst c (by simp)
    have hlast : startsFrom 0 (lines ++ ['\n']) = startsFrom 0 lines ++ [byteSize lines + 1] := by
      rw [startsFrom_append, Nat.zero_add]
      rfl
    have hcount : (lines ++ ['\n']).count '\n' = (startsFrom 0 lines).length + 1 := by
      rw [length_startsFrom, List.count_append]
      rfl
    rw [hlast, hcount, List.getElem?_cons_succ]
    simp

/-! ### Positions -/

theorem line_position (text : List Char) (offset : Nat) :
    ((ofText text).position text offset).line = ((utf8 text).take offset).count 0x0A :=
  lineOf_ofText text offset

/-- The position behind some whole lines and the start of one more. -/
theorem position_append (hfirst : EndsLine first) (hline : '\n' ∉ line) (after : List Char) :
    (ofText (first ++ (line ++ after))).position (first ++ (line ++ after))
      (byteSize (first ++ line)) = ⟨first.count '\n', line.length⟩ := by
  have hcount : (ofText (first ++ (line ++ after))).lineOf (byteSize (first ++ line)) =
      first.count '\n' := by
    rw [lineOf_ofText, ← List.append_assoc, utf8_append, ← length_utf8, List.take_left, count_utf8,
      List.count_append, List.count_eq_zero.2 hline, Nat.add_zero]
  have hslice : slice? (first ++ (line ++ after)) ⟨byteSize first, byteSize (first ++ line)⟩ =
      some line :=
    slice?_eq_some_iff.2 ⟨first, after, rfl, rfl, byteSize_append first line⟩
  simp only [position, hcount, lineStart_eq hfirst, hslice]
  rfl

/-- The column is zero where the text cannot be cut. -/
theorem column_position_of_not_isBoundary (h : isBoundary text offset = false) :
    ((ofText text).position text offset).column = 0 := by
  have hnone : ∀ start, slice? text ⟨start, offset⟩ = none := by
    intro start
    refine Option.eq_none_iff_forall_ne_some.2 fun part hpart => ?_
    have hfits := fits_iff_isBoundary.1 (fits_of_slice?_eq_some hpart)
    rw [h] at hfits
    exact Bool.false_ne_true hfits.2.2.2
  simp only [position, hnone]
  rfl

/-- An offset between two characters stands behind some whole lines and the start of one more. -/
theorem exists_of_isBoundary (h : isBoundary text offset = true) :
    ∃ first line after, text = first ++ (line ++ after) ∧ EndsLine first ∧ '\n' ∉ line ∧
      offset = byteSize (first ++ line) := by
  obtain ⟨before, after, rfl, rfl⟩ := isBoundary_iff.1 h
  obtain ⟨first, line, rfl, hfirst, hline⟩ := exists_endsLine_append before
  exact ⟨first, line, after, List.append_assoc .., hfirst, hline, rfl⟩

/-- Of two offsets between characters the later one has the later position. -/
theorem before_position_of_lt {later : Nat} (h : isBoundary text offset = true)
    (hlater : isBoundary text later = true) (hlt : offset < later) :
    ((ofText text).position text offset).Before ((ofText text).position text later) := by
  obtain ⟨first, line, after, rfl, hfirst, hline, rfl⟩ := exists_of_isBoundary h
  obtain ⟨before, rest, htext, rfl⟩ := isBoundary_iff.1 hlater
  obtain ⟨between, rfl⟩ :=
    exists_append_of_byteSize_le ((List.append_assoc ..).trans htext) hlt.le
  have hrest : after = between ++ rest := by simpa using htext
  subst hrest
  rw [position_append hfirst hline]
  by_cases hmem : '\n' ∈ between
  · -- a line ends between the two offsets
    left
    rw [line_position, ← List.append_assoc, ← List.append_assoc, utf8_append, ← length_utf8,
      List.take_left, count_utf8, List.count_append, List.count_append]
    have := List.count_pos_iff.2 hmem
    dsimp only
    omega
  · -- both offsets stand in one line
    right
    have hlater := position_append hfirst
      (show '\n' ∉ line ++ between from fun h => (List.mem_append.1 h).elim hline hmem) rest
    simp only [List.append_assoc] at hlater ⊢
    rw [hlater]
    have hpos : 0 < between.length := by
      rw [List.length_pos_iff]
      rintro rfl
      simp at hlt
    refine ⟨rfl, ?_⟩
    dsimp only
    rw [List.length_append]
    omega

/-- The position of an offset. Its line is the number of line feeds among the bytes before the
offset. Between two characters, its column is the number of characters behind the last of these line
feeds; then the offset is found again by passing as many lines and characters, and positions are
ordered as offsets are. Inside of a character and past the end the column is zero. -/
theorem position_counts (text : List Char) (offset : Nat) :
    let position := (ofText text).position text offset
    position.line = ((utf8 text).take offset).count 0x0A ∧
      (isBoundary text offset = true →
        (∃ first line after, text = first ++ (line ++ after) ∧ EndsLine first ∧ '\n' ∉ line ∧
          offset = byteSize (first ++ line) ∧ position.column = line.length) ∧
        Position.offsetIn text position.column position.line = offset ∧
        ∀ later, isBoundary text later = true →
          ((position.Before ((ofText text).position text later) ↔ offset < later) ∧
            (position = (ofText text).position text later ↔ offset = later))) ∧
      (isBoundary text offset = false → position.column = 0) := by
  intro position
  refine ⟨line_position text offset, fun h => ?_, column_position_of_not_isBoundary⟩
  have hback : ∀ place, isBoundary text place = true →
      Position.offsetIn text ((ofText text).position text place).column
        ((ofText text).position text place).line = place := by
    intro place hplace
    obtain ⟨first, line, after, rfl, hfirst, hline, rfl⟩ := exists_of_isBoundary hplace
    rw [position_append hfirst hline]
    exact Position.offsetIn_append hfirst line after
  refine ⟨?_, hback offset h, fun later hlater => ⟨⟨fun hbefore => ?_, ?_⟩, fun heq => ?_, ?_⟩⟩
  · obtain ⟨first, line, after, rfl, hfirst, hline, rfl⟩ := exists_of_isBoundary h
    exact ⟨first, line, after, rfl, hfirst, hline, rfl,
      congrArg Position.column (position_append hfirst hline after)⟩
  · by_contra hge
    rcases Nat.lt_or_eq_of_le (Nat.not_lt.1 hge) with hlt | rfl
    · exact hbefore.asymm (before_position_of_lt hlater h hlt)
    · exact hbefore.asymm hbefore
  · exact before_position_of_lt h hlater
  · rw [← hback offset h, ← hback later hlater, ← heq]
  · rintro rfl
    rfl

/-- Behind a character of two bytes and a carriage return, the last offset of the second line comes
before the end of the text, four characters later. The offset 8 lies inside of the last one. -/
theorem position_counts_multibyte :
    let text := "é\r\nb\n\n€".toList
    let map := ofText text
    isBoundary text 5 = true ∧ isBoundary text 10 = true ∧ isBoundary text 8 = false ∧
      map.position text 5 = ⟨1, 1⟩ ∧ Position.offsetIn text 1 1 = 5 ∧
      (map.position text 5).Before (map.position text 10) ∧ map.position text 8 = ⟨3, 0⟩ := by
  intro text map
  have h5 : isBoundary text 5 = true := by decide +kernel
  have h10 : isBoundary text 10 = true := by decide +kernel
  have h8 : isBoundary text 8 = false := by decide +kernel
  have hposition : map.position text 5 = ⟨1, 1⟩ := by decide +kernel
  obtain ⟨-, hvalid, -⟩ := position_counts text 5
  obtain ⟨-, hback, horder⟩ := hvalid h5
  obtain ⟨hline, -, hcolumn⟩ := position_counts text 8
  rw [hposition] at hback
  refine ⟨h5, h10, h8, hposition, hback, (horder 10 h10).1.2 (by decide), ?_⟩
  have hlines : ((utf8 text).take 8).count 0x0A = 3 := by decide +kernel
  calc map.position text 8
    _ = ⟨(map.position text 8).line, (map.position text 8).column⟩ := rfl
    _ = ⟨3, 0⟩ := by rw [hline.trans hlines, hcolumn h8]

end SourceMap

end ElementLint
