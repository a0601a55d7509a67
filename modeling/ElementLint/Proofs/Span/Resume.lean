import ElementLint.Proofs.Span.Lookahead
import Mathlib

/-!
# Where the scan can be resumed

The tags before a start tag do not depend on what the start tag is, nor on what follows it
(`Mark.exists_of_scan_eq_append`): when the scan has come to the `<` of a tag, it has not looked
beyond the first letter of its name.
-/

namespace ElementLint.Span

open Text Cursor

variable {offset place : Nat} {text left : List Char} {a : Char}

/-! ### The text of elements -/

/-- A word does not go over a character that it does not hold. -/
theorem prefix_append_cons_iff {c : Char} {after : List Char} {word before : List Char}
    (h : c ∉ word) : word <+: before ++ c :: after ↔ word <+: before := by
  induction word generalizing before with
  | nil => simp
  | cons d word ih =>
    obtain ⟨hd, hword⟩ := not_or.1 (mt List.mem_cons.2 h)
    cases before with
    | nil => simp [Ne.symm hd]
    | cons b before => rw [List.cons_append, List.cons_prefix_cons, List.cons_prefix_cons, ih hword]

theorem startsWithEndTag_iff {name : List Char} :
    startsWithEndTag name text = true ↔ '<' :: '/' :: name <+: lower text := by
  have htake : lower (text.take (name.length + 2)) = (lower text).take (name.length + 2) :=
    List.map_take
  rw [startsWithEndTag, htake, List.isPrefixOf_iff_prefix, List.prefix_take_iff]
  simp

/-- A character that is no letter comes from no other one when capitals are made small. -/
theorem eq_of_toLower_eq {c d : Char} (h : c.toLower = d) (hd : d.isAlpha = false) : c = d := by
  rw [← h, Char.isAlpha_toLower_eq_isAlpha] at hd
  have hcapital : ¬ c.isUpper = true := Bool.eq_false_iff.1 (Bool.or_eq_false_iff.1 hd).1
  rw [← h, Char.toLower_eq_of_not_isUpper hcapital]

/-- No end tag reaches to the `<` of a start tag or starts there. -/
theorem startsWithEndTag_append {name : List Char} (hname : '<' ∉ name) (ha : a.isAlpha = true)
    (last after : List Char) :
    startsWithEndTag name (last ++ '<' :: a :: after) = startsWithEndTag name last := by
  have hlower : lower (last ++ '<' :: a :: after) =
      lower last ++ '<' :: a.toLower :: lower after := by
    simp [lower]
  rw [Bool.eq_iff_iff, startsWithEndTag_iff, startsWithEndTag_iff, hlower]
  match last with
  | [] =>
    simp only [lower, List.map_nil, List.nil_append, List.cons_prefix_cons, List.prefix_nil,
      true_and, reduceCtorEq, iff_false, not_and]
    intro hslash
    have hletter : a = '/' := eq_of_toLower_eq hslash.symm rfl
    rw [hletter] at ha
    contradiction
  | [c] => simp [lower]
  | c :: d :: last =>
    simp only [lower, List.map_cons, List.cons_append, List.cons_prefix_cons]
    rw [prefix_append_cons_iff hname]

/-- The names of the elements whose content is text are plain. -/
theorem not_mem_of_isRawText {name : String} (h : isRawText name = true) : '<' ∉ name.toList := by
  have hall : ∀ name ∈ ["script", "style", "textarea", "title", "xmp", "iframe", "noembed",
      "noframes", "noscript", "plaintext"], '<' ∉ name.toList := by decide
  exact hall name (List.contains_iff_mem.1 h)

/-- A search that comes to a text comes to another one in its place, if it finds the same there. -/
theorem seekFrom_swap {found : List Char → Bool} {rest other : List Char} (hrest : rest ≠ [])
    (hfound : ∀ last, last <:+ text → found (last ++ other) = found (last ++ rest))
    (h : seekFrom found offset (text ++ rest) = ⟨place, left ++ rest⟩) :
    seekFrom found offset (text ++ other) = ⟨place, left ++ other⟩ := by
  induction text generalizing offset with
  | nil =>
    have hsame : found other = found rest := hfound [] List.nil_suffix
    obtain ⟨c, rest, rfl⟩ := List.exists_cons_of_ne_nil hrest
    rw [List.nil_append, seekFrom] at h
    split at h
    · next hstart =>
      obtain ⟨rfl, hleft⟩ := Cursor.mk.inj h
      obtain rfl := List.self_eq_append_left.1 hleft
      cases other with
      | nil => rfl
      | cons d other => rw [List.nil_append, seekFrom, if_pos (hsame.trans hstart)]
    · -- the search would not have stopped in the rest before the rest starts
      have hlength := length_seekFrom_le found (offset + c.utf8Size) rest
      rw [h, List.length_append, List.length_cons] at hlength
      omega
  | cons c text ih =>
    have hsame := hfound (c :: text) (List.suffix_refl _)
    rw [List.cons_append, List.cons_append] at hsame
    rw [List.cons_append, seekFrom] at h ⊢
    rw [hsame]
    split at h
    · next hstart =>
      obtain ⟨rfl, hleft⟩ := Cursor.mk.inj h
      rw [← List.cons_append, List.append_cancel_right_eq] at hleft
      rw [if_pos hstart, ← hleft, List.cons_append]
    · next hstart =>
      rw [if_neg hstart]
      exact ih (fun last hlast => hfound last (hlast.trans (List.suffix_cons c text))) h

theorem skipRawText_swap {name : String} {rest : List Char} (ha : a.isAlpha = true)
    (h : skipRawText name ⟨offset, text ++ '<' :: a :: rest⟩ = ⟨place, left ++ '<' :: a :: rest⟩)
    (other : List Char) :
    skipRawText name ⟨offset, text ++ '<' :: a :: other⟩ = ⟨place, left ++ '<' :: a :: other⟩ := by
  unfold skipRawText at h ⊢
  split at h
  · next hraw =>
    have hname := not_mem_of_isRawText hraw
    rw [if_pos hraw]
    refine seekFrom_swap (List.cons_ne_nil _ _) (fun last _ => ?_) h
    rw [startsWithEndTag_append hname ha, startsWithEndTag_append hname ha]
  · next hraw =>
    obtain ⟨rfl, hleft⟩ := Cursor.mk.inj h
    rw [List.append_cancel_right_eq] at hleft
    rw [if_neg hraw, hleft]

/-! ### One step of the scan -/

/-- Whether a tag is closed by a slash is seen in what the tag passes over. -/
theorem isSelfClosing_append (passed after : List Char) :
    isSelfClosing (passed ++ after) after = ['/', '>'].isSuffixOf passed := by
  rw [isSelfClosing, List.length_append, Nat.add_sub_cancel, List.take_left]

namespace Mark

/-- The element of a start tag stays open unless it is void or closed by a slash. -/
theorem ofStartTag_eq {span : TagSpan} {after : Cursor} {start : Nat} {hasContent : Bool}
    (h : TagSpan.ofStartTag start text = (span, after))
    (hcontent : (!isVoid span.name && !isSelfClosing text after.rest) = hasContent) :
    ofStartTag start text =
      (.opening span hasContent, if hasContent then skipRawText span.name after else after) := by
  rw [ofStartTag, h]
  subst hcontent
  rfl

theorem ofStartTag_swap {mark : Mark} {start : Nat} {rest : List Char} (ha : a.isAlpha = true)
    (h : ofStartTag start (text ++ '<' :: a :: rest) = (mark, ⟨place, left ++ '<' :: a :: rest⟩))
    (other : List Char) :
    ofStartTag start (text ++ '<' :: a :: other) = (mark, ⟨place, left ++ '<' :: a :: other⟩) := by
  have hsettled := TagSpan.ofStartTag_settled start (text ++ '<' :: a :: rest)
  cases hfound : TagSpan.ofStartTag start (text ++ '<' :: a :: rest) with
  | mk span after =>
  rw [ofStartTag, hfound] at h
  rw [hfound] at hsettled
  obtain ⟨rfl, hcursor⟩ := Prod.mk.inj h
  -- the scan goes on behind the tag, or behind the text of its element
  obtain ⟨skipped, hskipped⟩ : ∃ skipped, after.rest = skipped ++ (left ++ '<' :: a :: rest) := by
    split at hcursor
    · obtain ⟨skipped, hskipped⟩ := passes_skipRawText span.name after
      rw [hcursor] at hskipped
      exact ⟨skipped, hskipped.1⟩
    · exact ⟨[], by rw [hcursor]; rfl⟩
  obtain ⟨tagEnd, more⟩ := after
  obtain rfl : more = skipped ++ left ++ '<' :: a :: rest := by
    rw [List.append_assoc]
    exact hskipped
  rcases hsettled with ⟨passed, htext, hother⟩ | ⟨hnil, -⟩
  · -- the tag is closed, so it is read whatever follows
    have hcut : text = passed ++ ['>'] ++ (skipped ++ left) := by
      refine List.append_cancel_right (?_ : _ ++ '<' :: a :: rest = _ ++ '<' :: a :: rest)
      simpa using htext
    have hread : TagSpan.ofStartTag start
        (passed ++ ['>'] ++ (skipped ++ left ++ '<' :: a :: other)) =
          (span, ⟨tagEnd, skipped ++ left ++ '<' :: a :: other⟩) := by
      rw [List.append_assoc, List.singleton_append]
      exact hother _
    have hclosing : isSelfClosing (text ++ '<' :: a :: rest) (skipped ++ left ++ '<' :: a :: rest) =
        ['/', '>'].isSuffixOf (passed ++ ['>']) := by
      rw [hcut, List.append_assoc _ (skipped ++ left), isSelfClosing_append]
    rw [hclosing] at hcursor ⊢
    rw [hcut, List.append_assoc _ (skipped ++ left), ofStartTag, hread]
    dsimp only
    rw [isSelfClosing_append]
    refine Prod.ext rfl ?_
    split at hcursor
    · next hopen =>
      rw [if_pos hopen]
      exact skipRawText_swap ha hcursor other
    · next hclosed =>
      rw [if_neg hclosed]
      obtain ⟨rfl, hleft⟩ := Cursor.mk.inj hcursor
      rw [List.append_cancel_right hleft]
  · -- otherwise it would reach to the end of the text
    simp at hnil

theorem ofEndTag_swap {mark : Option Mark} {start : Nat} {rest : List Char} (hleft : left ≠ [])
    (h : ofEndTag start (text ++ rest) = (mark, ⟨place, left ++ rest⟩)) (other : List Char) :
    ofEndTag start (text ++ other) = (mark, ⟨place, left ++ other⟩) := by
  unfold ofEndTag at h ⊢
  dsimp only at h ⊢
  rw [drop_length_takeWhile] at h ⊢
  obtain ⟨hmark, hcursor⟩ := Prod.mk.inj h
  have hname := passes_skipFrom inTagName (start + 2) (text ++ rest)
  obtain ⟨skipped, hskipped⟩ :=
    (skipFrom inTagName (start + 2) (text ++ rest)).passes_skipPast ['>']
  cases hafter : skipFrom inTagName (start + 2) (text ++ rest) with
  | mk nameEnd more =>
  rw [hafter] at hcursor hskipped hmark
  rw [hcursor] at hskipped hmark
  obtain rfl : more = (skipped ++ left) ++ rest := by
    rw [List.append_assoc]
    exact hskipped.1
  have hne : skipped ++ left ≠ [] := List.append_ne_nil_of_right_ne_nil _ hleft
  rw [skipFrom_swap hne hafter other, takeWhile_swap hne hafter other,
    skipPast_swap hleft hcursor other, hmark]

theorem next_declaration {rest : List Char} (h : ¬ ['-', '-'] <+: rest) :
    next ⟨offset, '<' :: '!' :: rest⟩ = (none, (Cursor.mk (offset + 2) rest).skipPast ['>']) := by
  unfold next
  split
  · contradiction
  · next heq =>
    obtain rfl := (List.cons.inj (List.cons.inj heq).2).2
    exact absurd (List.prefix_append ['-', '-'] _) h
  · next heq =>
    obtain rfl := (List.cons.inj (List.cons.inj heq).2).2
    rfl
  · next heq => simp at heq
  · next heq => simp at heq
  · next hne _ _ heq => exact absurd (List.cons.inj (List.cons.inj heq).2).1.symm hne
  · next hother heq =>
    obtain ⟨hfirst, hrest⟩ := List.cons.inj heq
    exact absurd hrest.symm (hother _ _ hfirst.symm)

/-- A `<` before any other character starts no tag. -/
theorem next_lone {d : Char} {rest : List Char} (halpha : d.isAlpha = false)
    (hd : d ≠ '!' ∧ d ≠ '?' ∧ d ≠ '/') :
    next ⟨offset, '<' :: d :: rest⟩ = (none, ⟨offset + 1, d :: rest⟩) := by
  obtain ⟨hbang, hquestion, hslash⟩ := hd
  unfold next
  split
  · contradiction
  · next heq => exact absurd (List.cons.inj (List.cons.inj heq).2).1 hbang
  · next heq => exact absurd (List.cons.inj (List.cons.inj heq).2).1 hbang
  · next heq => exact absurd (List.cons.inj (List.cons.inj heq).2).1 hquestion
  · next heq => exact absurd (List.cons.inj (List.cons.inj heq).2).1 hslash
  · next heq =>
    obtain ⟨rfl, rfl⟩ := List.cons.inj (List.cons.inj heq).2
    rw [if_neg (Bool.eq_false_iff.1 halpha)]
  · next hother heq =>
    obtain ⟨hfirst, hrest⟩ := List.cons.inj heq
    exact absurd hrest.symm (hother _ _ hfirst.symm)

/-- A move to what follows some characters does not depend on what stands behind that. -/
theorem move_swap {mark : Option Mark} {rest : List Char} (text : List Char)
    (h : (none, Cursor.mk offset (text ++ '<' :: a :: rest)) =
      (mark, Cursor.mk place (left ++ '<' :: a :: rest))) (other : List Char) :
    (none, Cursor.mk offset (text ++ '<' :: a :: other)) =
      (mark, Cursor.mk place (left ++ '<' :: a :: other)) := by
  obtain ⟨rfl, hcursor⟩ := Prod.mk.inj h
  obtain ⟨rfl, hrest⟩ := Cursor.mk.inj hcursor
  rw [List.append_cancel_right hrest]

/-- A move past a word that is found before a start tag does not depend on that tag. -/
theorem past_swap {mark : Option Mark} {word rest : List Char} (text : List Char)
    (h : (none, (Cursor.mk offset (text ++ '<' :: a :: rest)).skipPast word) =
      (mark, Cursor.mk place (left ++ '<' :: a :: rest))) (other : List Char) :
    (none, (Cursor.mk offset (text ++ '<' :: a :: other)).skipPast word) =
      (mark, Cursor.mk place (left ++ '<' :: a :: other)) := by
  have hsplit : ∀ text rest, text ++ '<' :: a :: rest = (text ++ ['<', a]) ++ rest := by simp
  obtain ⟨rfl, hcursor⟩ := Prod.mk.inj h
  rw [hsplit, hsplit left] at hcursor ⊢
  rw [skipPast_swap (by simp) hcursor other]

/-- A step of the scan that ends before a start tag or at it does not look into that tag. -/
theorem next_swap {mark : Option Mark} {rest : List Char} (ha : a.isAlpha = true)
    (h : next ⟨offset, text ++ '<' :: a :: rest⟩ = (mark, ⟨place, left ++ '<' :: a :: rest⟩))
    (other : List Char) :
    next ⟨offset, text ++ '<' :: a :: other⟩ = (mark, ⟨place, left ++ '<' :: a :: other⟩) := by
  have hsplit : ∀ text rest, text ++ '<' :: a :: rest = (text ++ ['<', a]) ++ rest := by simp
  match text with
  | [] =>
    have hlength := length_next_lt ⟨offset, [] ++ '<' :: a :: rest⟩ (List.cons_ne_nil _ _)
    rw [h] at hlength
    simp only [List.nil_append, List.length_append, List.length_cons] at hlength
    omega
  | c :: text =>
    by_cases hopen : c = '<'
    swap
    · rw [List.cons_append, next_text hopen] at h ⊢
      exact move_swap text h other
    subst hopen
    match text with
    | [] => exact move_swap [] h other
    | d :: text =>
      by_cases halpha : d.isAlpha = true
      · rw [List.cons_append, List.cons_append, next_of_isAlpha halpha] at h ⊢
        obtain ⟨rfl, hcursor⟩ := Prod.mk.inj h
        rw [← List.cons_append] at hcursor ⊢
        rw [← List.cons_append, ofStartTag_swap ha (Prod.ext rfl hcursor) other]
      by_cases hslash : d = '/'
      · -- an end tag
        subst hslash
        have hend : ofEndTag offset (text ++ '<' :: a :: rest) =
          (mark, ⟨place, left ++ '<' :: a :: rest⟩) := h
        rw [hsplit, hsplit left] at hend
        have hother := ofEndTag_swap (by simp) hend other
        rw [← hsplit, ← hsplit left] at hother
        exact hother
      by_cases hquestion : d = '?'
      · subst hquestion
        exact past_swap text h other
      by_cases hbang : d = '!'
      · subst hbang
        by_cases hcomment : ['-', '-'] <+: text
        · obtain ⟨text, rfl⟩ := hcomment
          exact past_swap text h other
        · -- the start tag behind it does not make a comment of a declaration
          have hdeclaration : ∀ rest, ¬ ['-', '-'] <+: text ++ '<' :: a :: rest := by
            intro rest
            rwa [prefix_append_cons_iff (by decide)]
          rw [List.cons_append, List.cons_append, next_declaration (hdeclaration _)] at h ⊢
          exact past_swap _ h other
      · -- a character that starts no tag
        rw [List.cons_append, List.cons_append,
          next_lone (Bool.eq_false_iff.2 halpha) ⟨hbang, hquestion, hslash⟩] at h ⊢
        exact move_swap (d :: text) h other

/-! ### The scan -/

/-- A start tag is found at a `<` before a letter. -/
theorem exists_of_next_eq_opening {cursor after : Cursor} {span : TagSpan} {hasContent : Bool}
    (h : next cursor = (some (.opening span hasContent), after)) :
    ∃ a rest, a.isAlpha = true ∧ cursor.rest = '<' :: a :: rest ∧ span.start = cursor.offset := by
  unfold next at h
  split at h
  · simp at h
  · simp at h
  · simp at h
  · simp at h
  · unfold ofEndTag at h
    dsimp only at h
    split at h <;> simp at h
  · next a rest _ _ _ _ hrest =>
    split at h
    · next halpha =>
      refine ⟨a, rest, halpha, hrest, ?_⟩
      obtain ⟨rfl, -⟩ := Mark.opening.inj (Option.some.inj (Prod.mk.inj h).1)
      rfl
    · simp at h
  · simp at h

/-- The tags before a start tag are found whatever stands in its place, as long as that starts with
the same letter. -/
theorem exists_of_scan_eq_append {cursor : Cursor} {before later : List Mark} {span : TagSpan}
    {hasContent : Bool} (h : scan cursor = before ++ .opening span hasContent :: later) :
    ∃ passed a rest, a.isAlpha = true ∧ cursor.rest = passed ++ '<' :: a :: rest ∧
      span.start = cursor.offset + byteSize passed ∧
      scan ⟨span.start, '<' :: a :: rest⟩ = .opening span hasContent :: later ∧
      ∀ other, scan ⟨cursor.offset, passed ++ '<' :: a :: other⟩ =
        before ++ scan ⟨span.start, '<' :: a :: other⟩ := by
  induction hlength : cursor.rest.length using Nat.strong_induction_on
    generalizing cursor before with
  | _ n ih =>
  have hne : cursor.rest ≠ [] := by
    intro hnil
    rw [scan, dif_pos hnil] at h
    simp at h
  cases hnext : next cursor with
  | mk mark after =>
  rw [scan_eq_append hne hnext] at h
  -- the start tag is found after this step
  have hlater : ∀ between, before = mark.toList ++ between →
      scan after = between ++ .opening span hasContent :: later →
      ∃ passed a rest, a.isAlpha = true ∧ cursor.rest = passed ++ '<' :: a :: rest ∧
        span.start = cursor.offset + byteSize passed ∧
        scan ⟨span.start, '<' :: a :: rest⟩ = .opening span hasContent :: later ∧
        ∀ other, scan ⟨cursor.offset, passed ++ '<' :: a :: other⟩ =
          before ++ scan ⟨span.start, '<' :: a :: other⟩ := by
    rintro between rfl hscan
    obtain ⟨_, hstands⟩ := cursor.exists_standsIn
    obtain ⟨⟨step, hstep⟩, -⟩ := next_standsIn hstands
    have hlt := length_next_lt cursor hne
    rw [hnext] at hstep hlt
    rw [hlength] at hlt
    obtain ⟨passed, a, rest, ha, hrest, hstart, hfrom, hother⟩ := ih _ hlt hscan rfl
    have htext : cursor.rest = (step ++ passed) ++ '<' :: a :: rest := by
      rw [List.append_assoc, ← hrest]
      exact hstep.1
    refine ⟨step ++ passed, a, rest, ha, htext, ?_, hfrom, fun other => ?_⟩
    · rw [hstart, hstep.2, byteSize_append, Nat.add_assoc]
    · have hread : next ⟨cursor.offset, (step ++ passed) ++ '<' :: a :: rest⟩ =
          (mark, ⟨after.offset, passed ++ '<' :: a :: rest⟩) := by
        rw [← htext, ← hrest]
        exact hnext
      rw [scan_eq_append (by simp) (next_swap ha hread other), hother, List.append_assoc]
  cases mark with
  | none => exact hlater before rfl h
  | some mark =>
    cases before with
    | cons first between =>
      obtain ⟨rfl, hscan⟩ := List.cons.inj h
      exact hlater between rfl hscan
    | nil =>
      obtain ⟨rfl, -⟩ := List.cons.inj h
      obtain ⟨a, rest, ha, hrest, hstart⟩ := exists_of_next_eq_opening hnext
      refine ⟨[], a, rest, ha, hrest, hstart, ?_, fun other => by rw [hstart]; rfl⟩
      rw [hstart, ← hrest, scan_eq_append hne hnext]
      exact h

end Mark

end ElementLint.Span
