import ElementLint.Proofs.Text.SourceMap

/-!
# The lines of a text

A source map tells lines apart by their line feeds alone, while `Text.lines` takes the carriage
return of a line's end away and knows no line behind the last line feed. Both agree on the line
around an offset (`Text.LineAt.getD_lines`): it is the one with the number that the source map
gives, without its end, and it is empty behind the last line feed.

Of a line that starts at a known byte, `Text.columnsIn` lists the columns in an extent. They follow
each other (`Text.columnsIn_eq_range'`).
-/

namespace ElementLint.Text

/-- A line ends at a line feed, to which a carriage return right before it belongs, or with the
text. -/
def IsLineEnd (line ending after : List Char) : Prop :=
  ending = ['\r', '\n'] ∨ ending = ['\n'] ∧ line.getLast? ≠ some '\r' ∨ ending = [] ∧ after = []

/-- A text holds a line around an offset, between some whole lines, the end of the line and what
follows. The offset may stand at the start of the line, in it or in its end. -/
structure LineAt (text : List Char) (offset : Nat) (before line ending after : List Char) : Prop
    where
  text_eq : text = before ++ (line ++ (ending ++ after))
  endsLine : EndsLine before
  lineFeed_not_mem : '\n' ∉ line
  isLineEnd : IsLineEnd line ending after
  start_le : byteSize before ≤ offset
  /-- Behind the end of a line starts the next one, but the last line has no end. -/
  lt_stop : offset < byteSize before + byteSize line + byteSize ending ∨
    ending = [] ∧ offset ≤ byteSize before + byteSize line

/-- The columns of a line that starts at the byte `start` whose characters start in an extent. -/
def columnsIn (extent : Extent) (start : Nat) (line : List Char) : List Nat :=
  (List.range line.length).filter fun column =>
    decide (extent.start ≤ start + byteSize (line.take column)) &&
      decide (start + byteSize (line.take column) < extent.stop)

variable {text before line ending after first second full rest : List Char} {c : Char}
  {offset start : Nat}

/-! ### Lines without their ends -/

/-- A line without the carriage return at its end. -/
def withoutReturn (line : List Char) : List Char :=
  if line.getLast? = some '\r' then line.dropLast else line

/-- A character in front of a line is a part of it, unless it belongs to the line's end. -/
theorem lines_cons {more : List (List Char)} (hc : c ≠ '\n')
    (hreturn : c = '\r' → rest.head? ≠ some '\n') (h : lines rest = line :: more) :
    lines (c :: rest) = (c :: line) :: more := by
  rw [lines.eq_def]
  split
  case h_1 heq => contradiction
  case h_2 heq => exact absurd (List.cons.inj heq).1 hc
  case h_3 later heq =>
    obtain ⟨hc, rfl⟩ := List.cons.inj heq
    exact absurd rfl (hreturn hc)
  case h_4 d later _ _ heq =>
    obtain ⟨rfl, rfl⟩ := List.cons.inj heq
    cases rest with
    | nil => contradiction
    | cons d rest => rw [h]

theorem lines_append_lineFeed (hline : '\n' ∉ line) (rest : List Char) :
    lines (line ++ '\n' :: rest) = withoutReturn line :: lines rest := by
  induction line with
  | nil => rfl
  | cons c line ih =>
    obtain ⟨hc, hline⟩ := List.ne_and_not_mem_of_not_mem_cons hline
    by_cases hreturn : c = '\r' ∧ line = []
    · obtain ⟨rfl, rfl⟩ := hreturn
      rfl
    · have hcons : withoutReturn (c :: line) = c :: withoutReturn line := by
        cases line with
        | nil => simpa [withoutReturn] using hreturn
        | cons d line =>
          rw [withoutReturn, withoutReturn, List.getLast?_cons_cons, List.dropLast_cons_cons]
          split <;> rfl
      rw [hcons]
      refine lines_cons hc.symm (fun heq hhead => hreturn ⟨heq, ?_⟩) (ih hline)
      -- the line would have to start with a line feed
      cases line with
      | nil => rfl
      | cons d line => simp_all

/-- A text without a line feed is one line, if it is not empty. -/
theorem getD_lines_of_not_mem (hline : '\n' ∉ line) : (lines line).getD 0 [] = line := by
  have hone : line ≠ [] → lines line = [line] := by
    intro hne
    induction line with
    | nil => contradiction
    | cons c line ih =>
      obtain ⟨hc, hline⟩ := List.ne_and_not_mem_of_not_mem_cons hline
      cases line with
      | nil =>
        rw [lines]
        · exact hc.symm
        · rintro rest rfl heq
          contradiction
      | cons d line =>
        refine lines_cons hc.symm (fun _ hhead => hline ?_) (ih hline (List.cons_ne_nil _ _))
        rw [Option.some.inj hhead]
        exact List.mem_cons_self
  by_cases hnil : line = []
  · rw [hnil]
    rfl
  · rw [hone hnil]
    rfl

/-- The lines behind some whole lines are counted from their number on. -/
theorem getD_lines_append (hbefore : EndsLine before) (rest : List Char) :
    (lines (before ++ rest)).getD (before.count '\n') [] = (lines rest).getD 0 [] := by
  induction hcount : before.count '\n' generalizing before with
  | zero =>
    have hnil : before = [] := by
      by_contra hne
      obtain ⟨_, more, rfl, -, -⟩ := hbefore.exists_cons hne
      simp at hcount
    rw [hnil, List.nil_append]
  | succ count ih =>
    have hne : before ≠ [] := by
      rintro rfl
      contradiction
    obtain ⟨one, more, rfl, hone, hmore⟩ := hbefore.exists_cons hne
    rw [List.append_assoc, List.cons_append, lines_append_lineFeed hone, List.getD_cons_succ]
    refine ih hmore ?_
    rw [List.count_append, List.count_eq_zero.2 hone, List.count_cons_self] at hcount
    omega

/-- The line around an offset stands among the lines under the number of line feeds before it. -/
theorem LineAt.getD_lines (h : LineAt text offset before line ending after) :
    (lines text).getD (before.count '\n') [] = line := by
  rw [h.text_eq, getD_lines_append h.endsLine]
  rcases h.isLineEnd with rfl | ⟨rfl, hlast⟩ | ⟨rfl, rfl⟩
  · have hsplit : line ++ (['\r', '\n'] ++ after) = (line ++ ['\r']) ++ '\n' :: after := by simp
    rw [hsplit, lines_append_lineFeed (by simpa using h.lineFeed_not_mem)]
    simp [withoutReturn]
  · rw [List.singleton_append, lines_append_lineFeed h.lineFeed_not_mem, withoutReturn,
      if_neg hlast]
    rfl
  · rw [List.append_nil, List.append_nil]
    exact getD_lines_of_not_mem h.lineFeed_not_mem

/-- The line of a text that is cut at the line feeds, with what its end takes from it. -/
theorem exists_lineAt (hbefore : EndsLine before) (hfull : '\n' ∉ full)
    (hrest : rest = [] ∨ ∃ after, rest = '\n' :: after) :
    ∃ line ending after, line <+: full ∧ ∀ cut, cut <+: full →
      LineAt (before ++ (full ++ rest)) (byteSize (before ++ cut)) before line ending after := by
  have hsize : ∀ cut, cut <+: full →
      byteSize (before ++ cut) ≤ byteSize before + byteSize full := by
    rintro cut ⟨behind, rfl⟩
    simp
  have hstart : ∀ cut, byteSize before ≤ byteSize (before ++ cut) := by simp
  rcases hrest with rfl | ⟨after, rfl⟩
  · exact ⟨full, [], [], List.prefix_rfl, fun cut hcut =>
      ⟨by simp, hbefore, hfull, .inr (.inr ⟨rfl, rfl⟩), hstart cut, .inr ⟨rfl, hsize cut hcut⟩⟩⟩
  · by_cases hlast : full.getLast? = some '\r'
    · obtain ⟨line, rfl⟩ := List.getLast?_eq_some_iff.1 hlast
      refine ⟨line, ['\r', '\n'], after, List.prefix_append _ _, fun cut hcut =>
        ⟨by simp, hbefore, fun hmem => hfull (List.mem_append_left _ hmem), .inl rfl, hstart cut,
          .inl ?_⟩⟩
      have hle := hsize cut hcut
      have hreturn : byteSize ['\r'] = 1 := rfl
      have hend : byteSize ['\r', '\n'] = 2 := rfl
      rw [byteSize_append line, hreturn] at hle
      omega
    · refine ⟨full, ['\n'], after, List.prefix_rfl, fun cut hcut =>
        ⟨by simp, hbefore, hfull, .inr (.inl ⟨rfl, hlast⟩), hstart cut, .inl ?_⟩⟩
      have hle := hsize cut hcut
      have hend : byteSize ['\n'] = 1 := rfl
      omega

/-! ### Columns -/

theorem byteSize_mono (h : first <+: second) : byteSize first ≤ byteSize second := by
  obtain ⟨behind, rfl⟩ := h
  simp

/-- Columns are ordered as the offsets of their characters are. -/
theorem byteSize_take_lt_iff {column other : Nat} (h : column < line.length) :
    byteSize (line.take column) < byteSize (line.take other) ↔ column < other := by
  constructor
  · intro hlt
    by_contra hge
    exact absurd (byteSize_mono (List.take_prefix_take_left (Nat.not_lt.1 hge)))
      (Nat.not_le.2 hlt)
  · intro hlt
    have hsucc : byteSize (line.take (column + 1)) ≤ byteSize (line.take other) :=
      byteSize_mono (List.take_prefix_take_left hlt)
    obtain ⟨c, htake⟩ : ∃ c, line.take (column + 1) = line.take column ++ [c] :=
      ⟨_, List.take_succ_eq_append_getElem h⟩
    have hpos := c.utf8Size_pos
    rw [htake, byteSize_append, byteSize_cons] at hsucc
    omega

/-- Of two beginnings of a text the smaller one is known from its length. -/
theorem min_byteSize_eq (hfirst : first <+: full) (hsecond : second <+: full) :
    min (byteSize first) (byteSize second) = byteSize (second.take first.length) := by
  rcases List.prefix_or_prefix_of_prefix hfirst hsecond with h | h
  · rw [← List.prefix_iff_eq_take.1 h, Nat.min_eq_left (byteSize_mono h)]
  · rw [List.take_of_length_le h.length_le, Nat.min_eq_right (byteSize_mono h)]

/-- The numbers of a row between two bounds. -/
theorem filter_range_eq_range' (low high count : Nat) :
    (List.range count).filter (fun i => decide (low ≤ i) && decide (i < high)) =
      List.range' (min low count) (min high count - min low count) := by
  induction count with
  | zero => simp
  | succ count ih =>
    rw [List.range_succ, List.filter_append, ih]
    by_cases hin : low ≤ count ∧ count < high
    · have hcount : min high (count + 1) - min low (count + 1) =
          min high count - min low count + 1 := by omega
      have hlow : min low (count + 1) = min low count := by omega
      have hlast : count = min low count + (min high count - min low count) := by omega
      rw [hcount, hlow, List.range'_concat, Nat.one_mul, ← hlast]
      simp [hin]
    · have hnil : [count].filter (fun i => decide (low ≤ i) && decide (i < high)) = [] := by
        simp only [List.filter_cons, List.filter_nil, ite_eq_right_iff, Bool.and_eq_true,
          decide_eq_true_eq, List.cons_ne_nil, imp_false]
        exact hin
      rw [hnil, List.append_nil]
      rcases Nat.lt_or_ge count low with hlt | hge
      · have hzero : min high count - min low count = 0 := by omega
        have hzero' : min high (count + 1) - min low (count + 1) = 0 := by omega
        rw [hzero, hzero', List.range'_zero, List.range'_zero]
      · have hhigh : high ≤ count := by omega
        congr 1 <;> omega

/-- The columns of a line in an extent follow each other, from the one that the extent starts with
to the one that it ends before, as far as the line goes. -/
theorem columnsIn_eq_range' {extent : Extent} {low high : Nat}
    (hlow : min extent.start (start + byteSize line) = start + byteSize (line.take low))
    (hhigh : min extent.stop (start + byteSize line) = start + byteSize (line.take high)) :
    columnsIn extent start line = List.range' (min low line.length)
      (min high line.length - min low line.length) := by
  rw [← filter_range_eq_range', columnsIn]
  refine List.filter_congr fun column hcolumn => ?_
  have hlt := List.mem_range.1 hcolumn
  have hinside : byteSize (line.take column) < byteSize line := by
    conv_rhs => rw [← List.take_length (l := line)]
    exact (byteSize_take_lt_iff hlt).2 hlt
  have hstart : extent.start ≤ start + byteSize (line.take column) ↔ low ≤ column := by
    rw [← Nat.not_lt, ← Nat.not_lt, not_iff_not, ← byteSize_take_lt_iff hlt]
    omega
  have hstop : start + byteSize (line.take column) < extent.stop ↔ column < high := by
    rw [← byteSize_take_lt_iff hlt]
    omega
  rw [decide_eq_decide.2 hstart, decide_eq_decide.2 hstop]

end ElementLint.Text
