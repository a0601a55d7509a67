import ElementLint.Proofs.Span.Mark
import ElementLint.Proofs.Span.Written
import ElementLint.Span.Nesting

/-!
# Scanning what is written

A scan of a written forest finds its elements where they were written
(`Written.scan_write`). One lemma for each part of a tag says that the scan reads it as it was
written and stops right behind it, whatever follows; the tags of a forest are then found in order
(`Written.markScan_write`), and the stack of open elements is after a forest what it was before
(`Written.foldl_add_marks`).
-/

namespace ElementLint.Span.Written

open Text Cursor

variable {c d : Char} {run rest : List Char} {place : Nat}

/-! ### Characters -/

theorem ne_of_isNameChar (hc : isNameChar c = true) (hd : isNameChar d = false) : c ≠ d := by
  rintro rfl
  rw [hc] at hd
  contradiction

theorem isTagBlank_of_isNameChar (h : isNameChar c = true) : isTagBlank c = false := by
  have hne : ∀ d, isNameChar d = false → (c == d) = false := fun d hd =>
    beq_eq_false_iff_ne.2 (ne_of_isNameChar h hd)
  rw [isTagBlank, hne ' ' rfl, hne '\t' rfl, hne '\n' rfl, hne '\x0c' rfl, hne '\r' rfl]
  rfl

theorem inTagName_of_isNameChar (h : isNameChar c = true) : inTagName c = true := by
  rw [inTagName, isTagBlank_of_isNameChar h, bne_iff_ne.2 (ne_of_isNameChar h (d := '/') rfl),
    bne_iff_ne.2 (ne_of_isNameChar h (d := '>') rfl)]
  rfl

theorem inAttributeName_of_isNameChar (h : isNameChar c = true) : inAttributeName c = true := by
  rw [inAttributeName, isTagBlank_of_isNameChar h, bne_iff_ne.2 (ne_of_isNameChar h (d := '=') rfl),
    bne_iff_ne.2 (ne_of_isNameChar h (d := '>') rfl),
    bne_iff_ne.2 (ne_of_isNameChar h (d := '/') rfl)]
  rfl

theorem isNameChar_of_isLower (h : c.isLower = true) : isNameChar c = true := by
  rw [isNameChar, h]
  rfl

/-- No character of a name is a capital letter. -/
theorem toLower_of_isNameChar (h : isNameChar c = true) : c.toLower = c := by
  have hnot : ¬ ('A'.val ≤ c.val ∧ c.val ≤ 'Z'.val) := by
    rintro ⟨hfirst, hlast⟩
    simp only [isNameChar, Bool.or_eq_true, beq_iff_eq] at h
    rcases h with (hlower | hdigit) | rfl
    · have hle : 'a'.val ≤ c.val := of_decide_eq_true (Bool.and_eq_true_iff.1 hlower).1
      exact absurd (UInt32.le_trans hle hlast) (by decide)
    · have hle : c.val ≤ '9'.val := of_decide_eq_true (Bool.and_eq_true_iff.1 hdigit).2
      exact absurd (UInt32.le_trans hfirst hle) (by decide)
    · exact absurd hfirst (by decide)
  exact dif_neg hnot

theorem lower_eq_self (h : ∀ c ∈ run, isNameChar c = true) : lower run = run := by
  have hmap : run.map Char.toLower = run.map id :=
    List.map_congr_left fun c hc => toLower_of_isNameChar (h c hc)
  rw [lower, hmap, List.map_id]

theorem ElementName.chars (name : ElementName) : ∀ c ∈ name.text, isNameChar c = true := by
  intro c hc
  rcases List.mem_cons.1 hc with rfl | hc
  · exact isNameChar_of_isLower name.first_lower
  · exact List.all_eq_true.1 name.rest_chars c hc

theorem ElementName.isPlainName (name : ElementName) : IsPlainName name.text where
  starts := ⟨name.first, name.rest, rfl, name.first_lower⟩
  chars := name.chars
  not_void := name.not_void
  not_rawText := name.not_rawText

theorem IsPlainName.ne_nil {name : List Char} (h : IsPlainName name) : name ≠ [] := by
  obtain ⟨first, rest, rfl, -⟩ := h.starts
  exact List.cons_ne_nil _ _

/-! ### Attributes -/

/-- A value in quotes is read to its end. -/
theorem valueAt_write (value : Value) (place : Nat) (rest : List Char) :
    valueAt ⟨place, value.write ++ rest⟩ =
      (some ⟨place, place + byteSize value.write⟩, ⟨place + byteSize value.write, rest⟩) := by
  have hblank : isTagBlank value.quote = false := by
    rcases value.quote_eq with hquote | hquote <;> rw [hquote] <;> rfl
  have hfirst : skipFrom isTagBlank place (value.write ++ rest) =
      ⟨place, value.quote :: (value.text ++ value.quote :: rest)⟩ := by
    simp [Value.write, skipFrom, hblank]
  have hend : ((Cursor.mk place (value.quote :: (value.text ++ value.quote :: rest))).drop
      1).skipPast [value.quote] = ⟨place + byteSize value.write, rest⟩ := by
    have hdrop := drop_append place [value.quote] (value.text ++ value.quote :: rest)
    rw [List.singleton_append, List.length_singleton] at hdrop
    rw [hdrop, skipPast_singleton_append value.notMem]
    simp [Value.write, Nat.add_assoc]
  rw [valueAt, skipWhile, hfirst]
  dsimp only
  rw [if_pos value.quote_eq, hend]

/-- The name of an attribute is read to its end. -/
theorem takeWhile_name {first : Char} {tail : List Char}
    (hname : ∀ c ∈ first :: tail, isNameChar c = true)
    (hrest : ∀ c ∈ rest.head?, inAttributeName c = false) :
    (if first = '=' then []
      else ((first :: tail ++ rest).drop 1).takeWhile inAttributeName) = tail := by
  rw [if_neg (ne_of_isNameChar (hname first List.mem_cons_self) rfl), List.cons_append,
    List.drop_one, List.tail_cons]
  exact takeWhile_append_eq (fun c hc => inAttributeName_of_isNameChar
    (hname c (List.mem_cons_of_mem _ hc))) hrest

/-- An attribute without an equals sign after its name has no value. -/
theorem attributeAt_bare {first : Char} {tail : List Char} (place : Nat)
    (hname : ∀ c ∈ first :: tail, isNameChar c = true)
    (hrest : ∀ c ∈ rest.head?, inAttributeName c = false)
    (hequals : ∀ place more, (skipFrom isTagBlank place rest).rest ≠ '=' :: more) :
    attributeAt first ⟨place, first :: tail ++ rest⟩ =
      (⟨String.ofList (first :: tail), none⟩, ⟨place + byteSize (first :: tail), rest⟩) := by
  have hdrop := drop_append place (first :: tail) rest
  rw [List.length_cons] at hdrop
  unfold attributeAt
  dsimp only
  rw [takeWhile_name hname hrest, lower_eq_self hname, hdrop]
  split
  · next more hmore => exact absurd hmore (hequals _ more)
  · rfl

/-- The value of an attribute stands after the equals sign. -/
theorem attributeAt_equals {first : Char} {tail : List Char} (place : Nat) (rest : List Char)
    (hname : ∀ c ∈ first :: tail, isNameChar c = true) :
    attributeAt first ⟨place, first :: tail ++ '=' :: rest⟩ =
      (⟨String.ofList (first :: tail), (valueAt ⟨place + byteSize (first :: tail) + 1, rest⟩).1⟩,
        (valueAt ⟨place + byteSize (first :: tail) + 1, rest⟩).2) := by
  have hdrop := drop_append place (first :: tail) ('=' :: rest)
  rw [List.length_cons] at hdrop
  have hequals : (Cursor.mk (place + byteSize (first :: tail)) ('=' :: rest)).skipWhile isTagBlank =
      ⟨place + byteSize (first :: tail), '=' :: rest⟩ := by
    simp [skipWhile, skipFrom, isTagBlank]
  unfold attributeAt
  dsimp only
  rw [takeWhile_name hname (by simp [inAttributeName]), lower_eq_self hname, hdrop, hequals]
  rfl

/-- A text that ends the name of an attribute without a value. -/
def EndsName (rest : List Char) : Prop :=
  (∀ c ∈ rest.head?, inAttributeName c = false) ∧
    ∀ place more, (skipFrom isTagBlank place rest).rest ≠ '=' :: more

/-- An attribute is read as it is written. Without a value its name has to end there. -/
theorem attributeAt_write (entry : Attribute) (place : Nat)
    (hrest : entry.value = none → EndsName rest) :
    ∃ first more, entry.write ++ rest = ' ' :: first :: more ∧ isNameChar first = true ∧
      attributeAt first ⟨place + 1, first :: more⟩ =
        (entry.span place, ⟨place + byteSize entry.write, rest⟩) := by
  obtain ⟨⟨text, hne, hall⟩, value⟩ := entry
  have hchars := List.all_eq_true.1 hall
  obtain ⟨first, tail, rfl⟩ := List.exists_cons_of_ne_nil hne
  have hspace : ' '.utf8Size = 1 := rfl
  have hequals : '='.utf8Size = 1 := rfl
  cases value with
  | none =>
    have hread := attributeAt_bare (place + 1) hchars (hrest rfl).1 (hrest rfl).2
    rw [List.cons_append] at hread
    refine ⟨first, tail ++ rest, by simp [Attribute.write], hchars first List.mem_cons_self, ?_⟩
    rw [hread]
    simp [Attribute.span, Attribute.write, hspace, Nat.add_assoc]
  | some value =>
    have hread := attributeAt_equals (place + 1) (value.write ++ rest) hchars
    rw [List.cons_append] at hread
    refine ⟨first, tail ++ '=' :: (value.write ++ rest), by simp [Attribute.write],
      hchars first List.mem_cons_self, ?_⟩
    rw [hread, valueAt_write]
    simp [Attribute.span, Attribute.write, hspace, hequals, Nat.add_assoc]

/-- What follows an attribute in a start tag ends its name. -/
theorem endsName_writeAttributes (attributes : List Attribute) (rest : List Char) :
    EndsName (writeAttributes attributes ++ '>' :: rest) := by
  cases attributes with
  | nil =>
    refine ⟨by simp [writeAttributes, inAttributeName], fun place more => ?_⟩
    simp [writeAttributes, skipFrom, isTagBlank]
  | cons entry more =>
    obtain ⟨⟨text, hne, hall⟩, value⟩ := entry
    have hchars := List.all_eq_true.1 hall
    obtain ⟨first, tail, rfl⟩ := List.exists_cons_of_ne_nil hne
    have hfirst := hchars first List.mem_cons_self
    refine ⟨by simp [writeAttributes, Attribute.write, inAttributeName, isTagBlank],
      fun place more => ?_⟩
    have hblank : isTagBlank ' ' = true := rfl
    simp [writeAttributes, Attribute.write, skipFrom, hblank, isTagBlank_of_isNameChar hfirst,
      ne_of_isNameChar hfirst (d := '=') rfl]

/-- Nothing but the space is passed over before an attribute. -/
theorem skipBetween_space {first : Char} (hfirst : isNameChar first = true) (place : Nat)
    (rest : List Char) :
    skipBetween place (' ' :: first :: rest) = ⟨place + 1, first :: rest⟩ := by
  have hslash : first ≠ '/' := ne_of_isNameChar hfirst rfl
  have hspace : isTagBlank ' ' = true := rfl
  have hstop : skipBetween (place + 1) (first :: rest) = ⟨place + 1, first :: rest⟩ := by
    rw [skipBetween]
    · simp [isTagBlank_of_isNameChar hfirst, hslash]
    · intro more heq
      exact absurd heq hslash
  rw [skipBetween]
  · rw [hspace, Bool.true_or, if_pos rfl]
    exact hstop
  · intro more heq
    contradiction

/-- The attributes of a start tag are read as they are written, up to the end of the tag. -/
theorem attributesAt_write (attributes : List Attribute) (place : Nat) (rest : List Char) :
    attributesAt ⟨place, writeAttributes attributes ++ '>' :: rest⟩ =
      (attributeSpans place attributes,
        ⟨place + byteSize (writeAttributes attributes) + 1, rest⟩) := by
  induction attributes generalizing place with
  | nil =>
    have hbetween : skipBetween place ('>' :: rest) = ⟨place, '>' :: rest⟩ := by
      simp [skipBetween, isTagBlank]
    exact attributesAt_of_gt hbetween
  | cons entry more ih =>
    obtain ⟨first, tail, hwrite, hfirst, hread⟩ :=
      attributeAt_write entry place fun _ => endsName_writeAttributes more rest
    have hbetween := skipBetween_space hfirst place tail
    rw [writeAttributes, List.flatMap_cons, List.append_assoc, ← writeAttributes, hwrite,
      attributesAt_of_cons hbetween (ne_of_isNameChar hfirst rfl) (ne_of_isNameChar hfirst rfl),
      hread, ih]
    simp [attributeSpans, Nat.add_assoc]

/-! ### Tags -/

theorem inTagName_head_writeAttributes (attributes : List Attribute) (rest : List Char) :
    ∀ c ∈ (writeAttributes attributes ++ '>' :: rest).head?, inTagName c = false := by
  cases attributes with
  | nil => simp [writeAttributes, inTagName]
  | cons entry more => simp [writeAttributes, Attribute.write, inTagName, isTagBlank]

/-- A start tag is read as it is written. -/
theorem spanOfStartTag_write {name : List Char} (hname : IsPlainName name)
    (attributes : List Attribute) (place : Nat) (rest : List Char) :
    TagSpan.ofStartTag place (name ++ (writeAttributes attributes ++ '>' :: rest)) =
      (tagSpan place name attributes (place + byteSize (openingTag name attributes)),
        ⟨place + byteSize (openingTag name attributes), rest⟩) := by
  have htake : (name ++ (writeAttributes attributes ++ '>' :: rest)).takeWhile inTagName = name :=
    takeWhile_append_eq (fun c hc => inTagName_of_isNameChar (hname.chars c hc))
      (inTagName_head_writeAttributes attributes rest)
  have hopen : '<'.utf8Size = 1 := rfl
  have hclose : '>'.utf8Size = 1 := rfl
  rw [TagSpan.ofStartTag, htake, drop_append, attributesAt_write, lower_eq_self hname.chars]
  simp [tagSpan, openingTag, hopen, hclose, Nat.add_assoc]

/-- An attribute does not end in a slash. -/
theorem getLast?_write (entry : Attribute) : ∃ c, entry.write.getLast? = some c ∧ c ≠ '/' := by
  obtain ⟨⟨text, hne, hall⟩, value⟩ := entry
  have hchars := List.all_eq_true.1 hall
  cases value with
  | none =>
    refine ⟨text.getLast hne, ?_, ne_of_isNameChar (hchars _ (List.getLast_mem hne)) rfl⟩
    simp [Attribute.write, List.getLast?_cons, List.getLast?_eq_some_getLast hne]
  | some value =>
    refine ⟨value.quote, by simp [Attribute.write, Value.write, List.getLast?_append,
      List.getLast?_cons], ?_⟩
    rcases value.quote_eq with hquote | hquote <;> rw [hquote] <;> decide

/-- No attributes end a text in a slash that does not end so without them. -/
theorem getLast?_append_writeAttributes (attributes : List Attribute)
    (hrun : ∃ c, run.getLast? = some c ∧ c ≠ '/') :
    ∃ c, (run ++ writeAttributes attributes).getLast? = some c ∧ c ≠ '/' := by
  induction attributes generalizing run with
  | nil => simpa [writeAttributes] using hrun
  | cons entry more ih =>
    obtain ⟨c, hlast, hne⟩ := getLast?_write entry
    rw [writeAttributes, List.flatMap_cons, ← List.append_assoc, ← writeAttributes]
    exact ih ⟨c, by rw [List.getLast?_append, hlast, Option.some_or], hne⟩

/-- A written start tag is not closed by a slash. -/
theorem isSelfClosing_write {name : List Char} (hname : IsPlainName name)
    (attributes : List Attribute) (rest : List Char) :
    isSelfClosing (name ++ (writeAttributes attributes ++ '>' :: rest)) rest = false := by
  obtain ⟨c, hlast, hne⟩ : ∃ c, (name ++ writeAttributes attributes).getLast? = some c ∧
      c ≠ '/' := by
    obtain ⟨first, tail, rfl, -⟩ := hname.starts
    refine getLast?_append_writeAttributes attributes
      ⟨(first :: tail).getLast (by simp), List.getLast?_eq_some_getLast _, ?_⟩
    exact ne_of_isNameChar (hname.chars _ (List.getLast_mem _)) rfl
  have htext : name ++ (writeAttributes attributes ++ '>' :: rest) =
      (name ++ writeAttributes attributes ++ ['>']) ++ rest := by
    simp
  have htake : ((name ++ writeAttributes attributes ++ ['>']) ++ rest).take
      (((name ++ writeAttributes attributes ++ ['>']) ++ rest).length - rest.length) =
        name ++ writeAttributes attributes ++ ['>'] := by
    rw [List.length_append, Nat.add_sub_cancel, List.take_left]
  rw [isSelfClosing, htext, htake, ← Bool.not_eq_true, List.isSuffixOf_iff_suffix]
  rintro ⟨before, hbefore⟩
  -- what stands before the end of the tag would have to end in the slash
  have hsame : (before ++ ['/']) ++ ['>'] = (name ++ writeAttributes attributes) ++ ['>'] := by
    rw [← hbefore, List.append_assoc]
    rfl
  rw [← List.append_cancel_right hsame, List.getLast?_append, List.getLast?_singleton,
    Option.some_or] at hlast
  exact hne (Option.some.inj hlast).symm

/-! ### The scan -/

/-- A start tag is found, and the scan goes on after it. -/
theorem scan_openingTag {name : List Char} (hname : IsPlainName name) (attributes : List Attribute)
    (place : Nat) (rest : List Char) :
    Mark.scan ⟨place, openingTag name attributes ++ rest⟩ =
      .opening (tagSpan place name attributes (place + byteSize (openingTag name attributes)))
          true ::
        Mark.scan ⟨place + byteSize (openingTag name attributes), rest⟩ := by
  have hmark : Mark.ofStartTag place (name ++ (writeAttributes attributes ++ '>' :: rest)) =
      (.opening (tagSpan place name attributes (place + byteSize (openingTag name attributes)))
        true, ⟨place + byteSize (openingTag name attributes), rest⟩) := by
    rw [Mark.ofStartTag, spanOfStartTag_write hname]
    dsimp only
    rw [isSelfClosing_write hname]
    simp [tagSpan, hname.not_void, skipRawText, hname.not_rawText]
  have hnext : Mark.next ⟨place, openingTag name attributes ++ rest⟩ =
      (some (.opening
        (tagSpan place name attributes (place + byteSize (openingTag name attributes))) true),
        ⟨place + byteSize (openingTag name attributes), rest⟩) := by
    obtain ⟨first, tail, rfl, hlower⟩ := hname.starts
    have halpha : first.isAlpha = true := Bool.or_eq_true_iff.2 (.inr hlower)
    have htext : openingTag (first :: tail) attributes ++ rest =
        '<' :: first :: (tail ++ (writeAttributes attributes ++ '>' :: rest)) := by
      simp [openingTag]
    rw [List.cons_append] at hmark
    rw [htext, Mark.next_of_isAlpha halpha, hmark]
  exact Mark.scan_eq_append (by simp [openingTag]) hnext

/-- An end tag is found, and the scan goes on after it. -/
theorem scan_closingTag {name : List Char} (hname : IsPlainName name) (place : Nat)
    (rest : List Char) :
    Mark.scan ⟨place, closingTag name ++ rest⟩ =
      .closing (String.ofList name) ⟨place, place + byteSize (closingTag name)⟩ ::
        Mark.scan ⟨place + byteSize (closingTag name), rest⟩ := by
  have htake : (name ++ '>' :: rest).takeWhile inTagName = name :=
    takeWhile_append_eq (fun c hc => inTagName_of_isNameChar (hname.chars c hc))
      (by simp [inTagName])
  have hskip : (Cursor.mk (place + 2 + byteSize name) ('>' :: rest)).skipPast ['>'] =
      ⟨place + 2 + byteSize name + 1, rest⟩ := by
    simp [skipPast, skipTo, seekFrom, Cursor.drop]
    rfl
  have hsize : byteSize (closingTag name) = 2 + byteSize name + 1 := by
    simp [closingTag, ← Nat.add_assoc]
    rfl
  have hmark : Mark.ofEndTag place (name ++ '>' :: rest) =
      (some (.closing (String.ofList name) ⟨place, place + byteSize (closingTag name)⟩),
        ⟨place + byteSize (closingTag name), rest⟩) := by
    rw [Mark.ofEndTag, htake, drop_append, hskip, lower_eq_self hname.chars]
    simp [hname.ne_nil, hsize, Nat.add_assoc]
  have hnext : Mark.next ⟨place, closingTag name ++ rest⟩ =
      Mark.ofEndTag place (name ++ '>' :: rest) := by
    rw [closingTag, List.cons_append, List.cons_append, List.append_assoc]
    rfl
  exact Mark.scan_eq_append (by simp [closingTag]) (hnext.trans hmark)

theorem scan_startTag (name : ElementName) (attributes : List Attribute) (place : Nat)
    (rest : List Char) :
    Mark.scan ⟨place, startTag name attributes ++ rest⟩ =
      .opening (elementSpan place name attributes (place + byteSize (startTag name attributes)))
          true ::
        Mark.scan ⟨place + byteSize (startTag name attributes), rest⟩ :=
  scan_openingTag name.isPlainName attributes place rest

theorem scan_endTag (name : ElementName) (place : Nat) (rest : List Char) :
    Mark.scan ⟨place, endTag name ++ rest⟩ =
      .closing (String.ofList name.text) ⟨place, place + byteSize (endTag name)⟩ ::
        Mark.scan ⟨place + byteSize (endTag name), rest⟩ :=
  scan_closingTag name.isPlainName place rest

/-- A comment ends nowhere before its end. -/
theorem not_prefix_of_suffix (hrun : ¬ ['-', '-', '>'] <:+: run) {last : List Char}
    (hlast : last <:+ run) (hne : last ≠ []) :
    ¬ ['-', '-', '>'] <+: last ++ (['-', '-', '>'] ++ rest) := by
  -- one or two hyphens do not make the end start earlier, since `>` stands in the third place
  match last with
  | [] => contradiction
  | [a] => simp
  | [a, b] => simp
  | a :: b :: c :: more =>
    intro hstarts
    simp only [List.cons_append, List.cons_prefix_cons] at hstarts
    obtain ⟨rfl, rfl, rfl, -⟩ := hstarts
    exact hrun ((List.prefix_append ['-', '-', '>'] more).isInfix.trans hlast.isInfix)

/-- A comment is passed over. -/
theorem scan_comment (hrun : ¬ ['-', '-', '>'] <:+: run) (place : Nat) (rest : List Char) :
    Mark.scan ⟨place, writeComment run ++ rest⟩ =
      Mark.scan ⟨place + byteSize (writeComment run), rest⟩ := by
  have hskip : (Cursor.mk (place + 4) (run ++ (['-', '-', '>'] ++ rest))).skipPast
      ['-', '-', '>'] = ⟨place + byteSize (writeComment run), rest⟩ := by
    have hsize : byteSize (writeComment run) = 4 + byteSize run + byteSize ['-', '-', '>'] := by
      rw [writeComment, byteSize_append, byteSize_append, ← Nat.add_assoc]
      rfl
    rw [skipPast_append fun last hlast hne => not_prefix_of_suffix hrun hlast hne, hsize]
    simp only [Nat.add_assoc]
  have hnext : Mark.next ⟨place, writeComment run ++ rest⟩ =
      (none, ⟨place + byteSize (writeComment run), rest⟩) := by
    rw [← hskip, writeComment, List.append_assoc, List.append_assoc]
    rfl
  exact Mark.scan_eq_append (by simp [writeComment]) hnext

/-- A text is passed over. -/
theorem scan_text (hrun : '<' ∉ run) (place : Nat) (rest : List Char) :
    Mark.scan ⟨place, run ++ rest⟩ = Mark.scan ⟨place + byteSize run, rest⟩ := by
  induction run generalizing place with
  | nil => rfl
  | cons c run ih =>
    have hc : c ≠ '<' := fun heq => hrun (heq ▸ List.mem_cons_self)
    have hrun : '<' ∉ run := fun hmem => hrun (List.mem_cons_of_mem _ hmem)
    rw [List.cons_append, Mark.scan_eq_append (by simp) (Mark.next_text hc), ih hrun,
      byteSize_cons, Nat.add_assoc]
    rfl

/-- The tags of a forest that is written at a place. -/
def Forest.marks (place : Nat) : Forest → List Mark
  | .nil => []
  | .text run _ rest => rest.marks (place + byteSize run)
  | .comment run _ rest => rest.marks (place + byteSize (writeComment run))
  | .element name attributes children rest =>
    let inside := place + byteSize (startTag name attributes)
    let outside := inside + byteSize children.write
    let stop := outside + byteSize (endTag name)
    .opening (elementSpan place name attributes inside) true ::
      (children.marks inside ++
        (.closing (String.ofList name.text) ⟨outside, stop⟩ :: rest.marks stop))

/-- The tags of a written forest are found in order. -/
theorem markScan_write (forest : Forest) (place : Nat) (rest : List Char) :
    Mark.scan ⟨place, forest.write ++ rest⟩ =
      forest.marks place ++ Mark.scan ⟨place + byteSize forest.write, rest⟩ := by
  induction forest generalizing place rest with
  | nil => rfl
  | text run hrun forest ih =>
    rw [Forest.write, List.append_assoc, scan_text hrun, ih, byteSize_append, Nat.add_assoc]
    rfl
  | comment run hrun forest ih =>
    rw [Forest.write, List.append_assoc, scan_comment hrun, ih, byteSize_append, Nat.add_assoc]
    rfl
  | element name attributes children forest ihChildren ihForest =>
    rw [Forest.write, List.append_assoc, scan_startTag, List.append_assoc, ihChildren,
      List.append_assoc, scan_endTag, ihForest]
    simp only [Forest.marks, byteSize_append, List.cons_append, List.append_assoc, Nat.add_assoc]

/-! ### The stack of open elements -/

/-- A start tag opens its element and ends no other one. -/
theorem add_opening (name : ElementName) (attributes : List Attribute) (place stop : Nat)
    (spans : Array TagSpan) (opened : List OpenTag) :
    Nesting.add ⟨spans, opened⟩ (.opening (elementSpan place name attributes stop) true) =
      ⟨spans ++ [elementSpan place name attributes stop].toArray,
        ⟨spans.size, String.ofList name.text⟩ :: opened⟩ := by
  have himplied : impliedEnd (String.ofList name.text) = none := name.no_impliedEnd
  simp [Nesting.add, Nesting.enter, Nesting.closeImplied, elementSpan, himplied]

theorem modify_append_cons (spans : Array TagSpan) (span : TagSpan) (inner : List TagSpan)
    (f : TagSpan → TagSpan) :
    (spans ++ (span :: inner).toArray).modify spans.size f =
      spans ++ (f span :: inner).toArray := by
  apply Array.toList_inj.1
  rw [Array.toList_modify, Array.toList_append, Array.toList_append, ← Array.length_toList]
  exact List.modifyTailIdx_add (List.modifyHead f) 0 spans.toList (span :: inner)

/-- An end tag ends the innermost element if that has its name. -/
theorem add_closing (name : String) (extent : Extent) (span : TagSpan) (spans : Array TagSpan)
    (inner : List TagSpan) (opened : List OpenTag) :
    Nesting.add ⟨spans ++ (span :: inner).toArray, ⟨spans.size, name⟩ :: opened⟩
        (.closing name extent) =
      ⟨spans ++ ({ span with stop := extent.stop } :: inner).toArray, opened⟩ := by
  have hinner : (OpenTag.mk spans.size name :: opened).takeWhile (·.name != name) = [] := by
    simp
  rw [Nesting.add, Nesting.close, hinner]
  simp only [List.length_nil, List.drop_zero, Nesting.endAt, List.foldl_nil, List.foldl_cons,
    modify_append_cons]

/-- After a forest the open elements are those before it. -/
theorem foldl_add_marks (forest : Forest) (place : Nat) (spans : Array TagSpan)
    (opened : List OpenTag) :
    (forest.marks place).foldl Nesting.add ⟨spans, opened⟩ =
      ⟨spans ++ (forest.spans place).toArray, opened⟩ := by
  induction forest generalizing place spans opened with
  | nil => simp [Forest.marks, Forest.spans]
  | text run hrun forest ih => exact ih _ _ _
  | comment run hrun forest ih => exact ih _ _ _
  | element name attributes children forest ihChildren ihForest =>
    -- behind the children the element is the innermost open one again, and its end tag ends it
    have happend : ∀ first second : List TagSpan,
        spans ++ first.toArray ++ second.toArray = spans ++ (first ++ second).toArray := by
      simp
    rw [Forest.marks, List.foldl_cons, add_opening, List.foldl_append, ihChildren, happend,
      List.singleton_append, List.foldl_cons, add_closing, ihForest, happend]
    rfl

/-- All of a written forest is scanned. -/
theorem markScan_eq_marks (forest : Forest) : Mark.scan ⟨0, forest.write⟩ = forest.marks 0 := by
  have h := markScan_write forest 0 []
  rw [List.append_nil] at h
  rw [h, Mark.scan, dif_pos rfl, List.append_nil]

/-- A scan finds the elements of a written forest, all of them and nothing else, where they were
written. -/
theorem scan_write (forest : Forest) :
    (TagSpan.scan forest.write).toList = forest.spans 0 := by
  rw [TagSpan.scan, markScan_eq_marks, Nesting.empty, foldl_add_marks]
  simp [Nesting.finish, Nesting.endAt]

/-- An element in one of its own name, with a value and a comment that look like tags. -/
example :
    let name : ElementName :=
      ⟨'a', ['-', 'b'], by decide, by decide, by decide, by decide, by decide⟩
    let entry : Attribute :=
      ⟨⟨['c'], by decide, by decide⟩, some ⟨'"', ['<', 'é', '/', '>'], by decide, by decide⟩⟩
    let forest : Forest :=
      .element name [entry] (.element name [] .nil .nil) (.comment ['<', 'p', '>'] (by decide) .nil)
    forest.write = "<a-b c=\"<é/>\"><a-b></a-b></a-b><!--<p>-->".toList ∧
      forest.spans 0 =
        [⟨"a-b", 0, 4, 15, 32, [⟨"c", some ⟨7, 14⟩⟩]⟩, ⟨"a-b", 15, 19, 20, 26, []⟩] := by
  decide +kernel

end ElementLint.Span.Written
