import ElementLint.Markup.Token.RawText
import ElementLint.Proofs.Span.ImpliedEnd
import ElementLint.Proofs.Span.Insertion

/-!
# Elements whose content is text

The scan looks for no tags in the content of an element whose content is text, up to the first place
where the name of the element follows `</` (`TagSpan.textEnd`). If that is an end tag, the element
ends there, and if there is no such place, it ends with the text and no element starts after it
(`TagSpan.scan_rawText`).

The place need not be an end tag: the name there may be the beginning of a longer one, which the
content of the element may well hold, and no end tag ends a `plaintext` element. There the scan
finds elements in what is text (`TagSpan.scan_rawText_longer_name`).
-/

namespace ElementLint.Span

open Text Cursor

variable {text : List Char} {name : List Char} {offset : Nat}

namespace Cursor

variable {found stronger : List Char → Bool}

/-- A search for more comes to the same place, if what it looks for stands there. -/
theorem seekFrom_eq_of_found (hstronger : ∀ text, stronger text = true → found text = true)
    (h : (seekFrom found offset text).rest = [] ∨
      stronger (seekFrom found offset text).rest = true) :
    seekFrom stronger offset text = seekFrom found offset text := by
  induction text generalizing offset with
  | nil => rfl
  | cons c rest ih =>
    rw [seekFrom] at h ⊢
    rw [seekFrom]
    split at h
    · next hfound =>
      rw [if_pos (h.resolve_left (List.cons_ne_nil _ _)), if_pos hfound]
    · next hnot =>
      rw [if_neg (mt (hstronger _) hnot), if_neg hnot]
      exact ih h

/-- A move past a character goes over what does not hold it. -/
theorem skipPast_append_of_not_mem {c : Char} {passed : List Char} (hpassed : c ∉ passed)
    (rest : List Char) :
    (Cursor.mk offset (passed ++ rest)).skipPast [c] =
      (Cursor.mk (offset + byteSize passed) rest).skipPast [c] := by
  induction passed generalizing offset with
  | nil => rfl
  | cons d passed ih =>
    obtain ⟨hd, hmore⟩ := not_or.1 (mt List.mem_cons.2 hpassed)
    rw [byteSize_cons, ← Nat.add_assoc, ← ih hmore, List.cons_append, skipPast, skipPast, skipTo,
      skipTo, seekFrom, if_neg (by simpa using hd)]

end Cursor

/-! ### End tags in the text of an element -/

theorem exists_of_startsWithEndTag (h : startsWithEndTag name text = true) :
    ∃ word rest, text = '<' :: '/' :: (word ++ rest) ∧ lower word = name := by
  obtain ⟨more, hmore⟩ := startsWithEndTag_iff.1 h
  obtain ⟨a, tail, rfl, ha, htail⟩ := List.map_eq_cons_iff.1 hmore.symm
  obtain ⟨b, tail, rfl, hb, htail⟩ := List.map_eq_cons_iff.1 htail
  obtain ⟨word, rest, rfl, hword, -⟩ := List.map_eq_append_iff.1 htail
  rw [eq_of_toLower_eq ha rfl, eq_of_toLower_eq hb rfl]
  exact ⟨word, rest, rfl, hword⟩

/-- Behind the name in an end tag stands something that is no part of a name. -/
theorem isEndTag_append_word {word : List Char} (hword : lower word = name) (rest : List Char) :
    Markup.startsWithEndTag name ('<' :: '/' :: (word ++ rest)) =
      rest.head?.any fun c => !inTagName c := by
  have hlength : name.length = word.length := by rw [← hword, lower, List.length_map]
  have hends : (fun c => isTagBlank c || c == '/' || c == '>') = fun c => !inTagName c := by
    funext c
    simp [inTagName, bne, Bool.or_assoc]
  rw [Markup.startsWithEndTag, Markup.startsWithWord, hlength, List.take_left, List.drop_left,
    hword, hends]
  simp

theorem startsWithEndTag_of_isEndTag (h : Markup.startsWithEndTag name text = true) :
    startsWithEndTag name text = true := by
  unfold Markup.startsWithEndTag at h
  split at h
  · next rest =>
    obtain ⟨hname, -⟩ := Bool.and_eq_true_iff.1 h
    have htake := List.isPrefixOf_iff_prefix.1 hname
    rw [startsWithEndTag, List.isPrefixOf_iff_prefix]
    simpa [lower] using htake
  · contradiction

/-- The names of the elements whose content is text are words. -/
theorem isAlpha_of_isRawText {name : String} (h : isRawText name = true) :
    name.toList ≠ [] ∧ ∀ c ∈ name.toList, c.isAlpha = true := by
  have hall : ∀ name ∈ ["script", "style", "textarea", "title", "xmp", "iframe", "noembed",
      "noframes", "noscript", "plaintext"],
        name.toList ≠ [] ∧ name.toList.all Char.isAlpha = true := by decide
  obtain ⟨hne, halpha⟩ := hall name (List.contains_iff_mem.1 h)
  exact ⟨hne, List.all_eq_true.1 halpha⟩

theorem not_isVoid_of_isRawText {name : String} (h : isRawText name = true) :
    isVoid name = false := by
  have hall : ∀ name ∈ ["script", "style", "textarea", "title", "xmp", "iframe", "noembed",
      "noframes", "noscript", "plaintext"], isVoid name = false := by decide
  exact hall name (List.contains_iff_mem.1 h)

/-- Behind an end tag the scan goes on at the next `>`. -/
theorem Mark.ofEndTag_snd (place : Nat) (text : List Char) :
    (Mark.ofEndTag place text).2 = (Cursor.mk place ('<' :: '/' :: text)).skipPast ['>'] := by
  have hopen : Passes ⟨place, '<' :: '/' :: text⟩ ['<', '/'] ⟨place + 2, text⟩ := ⟨rfl, rfl⟩
  have hname : Passes ⟨place + 2, text⟩ _ _ :=
    passes_drop_word (List.takeWhile_prefix inTagName)
  obtain ⟨htext, hplace⟩ := hopen.trans hname
  -- no `>` belongs to the name
  have hpassed : '>' ∉ ['<', '/'] ++ text.takeWhile inTagName := by
    simp only [List.cons_append, List.nil_append, List.mem_cons, not_or]
    refine ⟨by decide, by decide, fun hmem => ?_⟩
    exact absurd (List.all_eq_true.1 List.all_takeWhile _ hmem) (by decide)
  rw [show '<' :: '/' :: text = _ from htext, skipPast_append_of_not_mem hpassed,
    show place + _ = _ from hplace.symm]
  rfl

/-- Where the name of an element follows `</`, the scan finds an end tag. It is one of the element
if nothing more belongs to the name. -/
theorem Mark.next_endOfText {name : String} (hraw : isRawText name = true)
    (h : startsWithEndTag name.toList text = true) (place : Nat) :
    ∃ word, Mark.next ⟨place, text⟩ =
        (some (.closing word ⟨place, ((Cursor.mk place text).skipPast ['>']).offset⟩),
          (Cursor.mk place text).skipPast ['>']) ∧
      (Markup.startsWithEndTag name.toList text = true → word = name) := by
  obtain ⟨hne, halpha⟩ := isAlpha_of_isRawText hraw
  obtain ⟨word, rest, rfl, hword⟩ := exists_of_startsWithEndTag h
  have hword_in : ∀ c ∈ word, inTagName c = true := by
    intro c hc
    have hlower := halpha c.toLower (hword ▸ List.mem_map_of_mem hc)
    rw [Char.isAlpha_toLower_eq_isAlpha] at hlower
    exact inTagName_of_isAlpha hlower
  have hword_ne : word ≠ [] := by
    rintro rfl
    exact hne hword.symm
  -- the name in the tag is the word with what else belongs to it
  have htake : (word ++ rest).takeWhile inTagName = word ++ rest.takeWhile inTagName :=
    List.takeWhile_append_of_pos hword_in
  refine ⟨String.ofList (lower (word ++ rest.takeWhile inTagName)), ?_, fun hends => ?_⟩
  · show Mark.ofEndTag place (word ++ rest) = _
    rw [← Mark.ofEndTag_snd]
    refine Prod.ext ?_ rfl
    simp [Mark.ofEndTag, htake, hword_ne]
  · rw [isEndTag_append_word hword] at hends
    have hrest : rest.takeWhile inTagName = [] := by
      cases rest with
      | nil => rfl
      | cons c rest => rw [List.takeWhile_cons, if_neg (by simpa using hends)]
    rw [hrest, List.append_nil, hword, String.ofList_toList]

/-! ### The content of an element -/

namespace TagSpan

/-- Where the scan takes the text of an element to end, if `content` follows its start tag: at the
first place where its name follows `</`. -/
def textEnd (span : TagSpan) (content : List Char) : Cursor :=
  (Cursor.mk span.startTagEnd content).skipTo (startsWithEndTag span.name.toList)

/-- The first end tag of an element in what follows its start tag. -/
def endTag (span : TagSpan) (content : List Char) : Cursor :=
  (Cursor.mk span.startTagEnd content).skipTo (Markup.startsWithEndTag span.name.toList)

variable {span : TagSpan} {content : List Char}

theorem startsWithEndTag_textEnd (hne : (span.textEnd content).rest ≠ []) :
    startsWithEndTag span.name.toList (span.textEnd content).rest = true := by
  obtain ⟨_, -, -, hfound⟩ :=
    seekFrom_spec (startsWithEndTag span.name.toList) span.startTagEnd content
  exact hfound.resolve_left hne

/-- The text of an element ends at its end tag, unless something more belongs to the name there. -/
theorem textEnd_eq_endTag (h : (span.textEnd content).rest = [] ∨
    Markup.startsWithEndTag span.name.toList (span.textEnd content).rest = true) :
    span.textEnd content = span.endTag content :=
  (seekFrom_eq_of_found (fun _ => startsWithEndTag_of_isEndTag) h).symm

variable {t b : TagSpan}

/-- Behind the start tag the scan goes on where the text of the element ends. -/
theorem exists_scan_textEnd (ht : t ∈ TagSpan.scan text) (hraw : isRawText t.name = true)
    (hopen : t.endsInSlash text = false) :
    ∃ earlier opened content, t = { opened with stop := t.stop } ∧
      (Cursor.mk t.startTagEnd content).StandsIn text ∧
      Mark.scan ⟨0, text⟩ = earlier ++ .opening opened true :: Mark.scan (t.textEnd content) ∧
      (TagSpan.scan text)[(earlier.foldl Nesting.add .empty).spans.size]? = some t := by
  obtain ⟨before, after, hspans⟩ := List.append_of_mem (Array.mem_toList_iff.2 ht)
  obtain ⟨earlier, opened, hasContent, passed, first, rest, cursor, htag, hspan, -⟩ :=
    exists_startTagAt hspans
  obtain ⟨content, hread, -, rfl⟩ := htag.exists_read
  have hname : opened.name = t.name := by rw [hspan]
  have hend : opened.startTagEnd = t.startTagEnd := by rw [hspan]
  have hcontent : hasContent = true := by
    have hslash : opened.endsInSlash text = false := by
      rw [endsInSlash, hend]
      exact hopen
    rw [htag.hasContent_eq, hslash, hname, not_isVoid_of_isRawText hraw]
    rfl
  have hscan := htag.scan_text
  rw [if_pos hcontent, hname, hend, skipRawText, if_pos hraw, hcontent] at hscan
  refine ⟨earlier, opened, content, hspan, ?_, hscan, ?_⟩
  · have hstart : (Cursor.mk opened.start ('<' :: first :: rest)).StandsIn text :=
      ⟨passed, htag.text_eq, by rw [htag.start_eq, Nat.zero_add]⟩
    obtain ⟨⟨_, hpassed⟩, -⟩ :=
      TagSpan.standsIn_ofStartTag hstart (inTagName_of_isAlpha htag.isAlpha)
    rw [hread, hend] at hpassed
    exact hpassed.standsIn hstart
  · rw [htag.size_eq, ← Array.getElem?_toList, hspans]
    simp

/-- The start tag of a later element is found behind a start tag. -/
theorem exists_mem_later {earlier later : List Mark} {opened : TagSpan} {hasContent : Bool}
    (hscan : Mark.scan ⟨0, text⟩ = earlier ++ .opening opened hasContent :: later)
    (hb : b ∈ TagSpan.scan text) (hlt : opened.start < b.start) :
    ∃ found content, .opening found content ∈ later ∧ found.start = b.start := by
  obtain ⟨before, after, hspans⟩ := List.append_of_mem (Array.mem_toList_iff.2 hb)
  obtain ⟨passed, found, content, more, hmarks, -, hfound, -⟩ := exists_opening hspans
  have hstart : found.start = b.start := by rw [hfound]
  refine ⟨found, content, ?_, hstart⟩
  have hmem : Mark.opening found content ∈ Mark.scan ⟨0, text⟩ :=
    hmarks ▸ List.mem_append_right _ List.mem_cons_self
  have hstands := (Mark.standsIn_of_mem_scan (standsIn_start text) _ hmem).1
  have hordered := Mark.pairwise_scan (standsIn_start text)
  rw [hscan] at hmem hordered
  rcases List.mem_append.1 hmem with hearlier | hmem
  · -- the tags before that one end before it
    have hle := (List.pairwise_append.1 hordered).2.2 _ hearlier _ List.mem_cons_self
    have hbefore : found.start ≤ opened.start := hstands.start_le_stop.trans hle
    omega
  · rcases List.mem_cons.1 hmem with heq | hlater
    · obtain ⟨rfl, -⟩ := Mark.opening.inj heq
      omega
    · exact hlater

/-- Where the text of the element ends, the scan finds an end tag and goes on behind it. -/
theorem scan_textEnd (hraw : isRawText t.name = true) (hne : (t.textEnd content).rest ≠ []) :
    (t.textEnd content).offset < ((t.textEnd content).skipPast ['>']).offset ∧
      ∃ word, Mark.scan (t.textEnd content) =
          .closing word
              ⟨(t.textEnd content).offset, ((t.textEnd content).skipPast ['>']).offset⟩ ::
            Mark.scan ((t.textEnd content).skipPast ['>']) ∧
        (Markup.startsWithEndTag t.name.toList (t.textEnd content).rest = true →
          word = t.name) := by
  obtain ⟨word, hnext, hword⟩ :=
    Mark.next_endOfText hraw (startsWithEndTag_textEnd hne) (t.textEnd content).offset
  refine ⟨?_, word, Mark.scan_eq_append hne hnext, hword⟩
  obtain ⟨_, hstands⟩ := (t.textEnd content).exists_standsIn
  obtain ⟨⟨passed, hpassed⟩, -⟩ := Mark.next_standsIn hstands
  have hlength := Mark.length_next_lt _ hne
  rw [show Mark.next (t.textEnd content) = _ from hnext] at hpassed hlength
  refine hpassed.offset_lt ?_
  rintro rfl
  exact absurd (congrArg List.length hpassed.1) hlength.ne'

/-- No element starts in the text of another one. -/
theorem textEnd_lt_start {earlier : List Mark} {opened : TagSpan} {hasContent : Bool}
    (hraw : isRawText t.name = true) (hcontent : (Cursor.mk t.startTagEnd content).StandsIn text)
    (hscan : Mark.scan ⟨0, text⟩ =
      earlier ++ .opening opened hasContent :: Mark.scan (t.textEnd content))
    (hb : b ∈ TagSpan.scan text) (hlt : opened.start < b.start) :
    (t.textEnd content).rest ≠ [] ∧ (t.textEnd content).offset < b.start := by
  obtain ⟨found, hasContent', hmem, hstart⟩ := exists_mem_later hscan hb hlt
  have hne : (t.textEnd content).rest ≠ [] := by
    intro hnil
    rw [Mark.scan, dif_pos hnil] at hmem
    exact List.not_mem_nil hmem
  refine ⟨hne, ?_⟩
  -- the start tag is not what the scan finds there, so it stands behind that
  obtain ⟨hbehind, word, hclosing, -⟩ := scan_textEnd hraw hne
  rw [hclosing] at hmem
  have hlater := (List.mem_cons.1 hmem).resolve_left Mark.noConfusion
  obtain ⟨_, hpassed⟩ := passes_skipTo (startsWithEndTag t.name.toList) ⟨t.startTagEnd, content⟩
  obtain ⟨_, hpast⟩ := hpassed.exists_skipPast ['>']
  have hle := (Mark.standsIn_of_mem_scan (hpast.standsIn hcontent) _ hlater).2
  rw [← hstart]
  exact hbehind.trans_le hle

end TagSpan

namespace Nesting

/-- The elements that are found before some start tag, and those in which it stands. -/
theorem exists_add_opening {earlier later : List Mark} {opened : TagSpan}
    (hscan : Mark.scan ⟨0, text⟩ = earlier ++ .opening opened true :: later) :
    ∃ (spans : Array TagSpan) (outer : List OpenTag),
      spans.size = (earlier.foldl add .empty).spans.size ∧
      spans.size ∉ outer.map (·.index) ∧
      (earlier.foldl add .empty).add (.opening opened true) =
        ⟨spans ++ [opened].toArray, ⟨spans.size, opened.name⟩ :: outer⟩ := by
  have hwell := wellNested_earlier hscan
  obtain ⟨inner, outer, hopened, heq⟩ :=
    exists_closeImplied_eq (earlier.foldl add .empty) opened.name opened.start
  refine ⟨endAt (earlier.foldl add .empty).spans inner opened.start, outer, size_endAt _ _ _,
    ?_, ?_⟩
  · rw [size_endAt]
    intro hmem
    obtain ⟨tag, htag, hindex⟩ := List.mem_map.1 hmem
    exact absurd hindex (hwell.opened_lt tag (hopened ▸ List.mem_append_right _ htag)).ne
  · rw [add, enter, heq]
    simp

/-- An element ends at its end tag, if that follows its start tag. -/
theorem getElem?_scan_of_closing {earlier later : List Mark} {opened : TagSpan} {extent : Extent}
    (hscan : Mark.scan ⟨0, text⟩ =
      earlier ++ .opening opened true :: .closing opened.name extent :: later) :
    (TagSpan.scan text)[(earlier.foldl add .empty).spans.size]? =
      some { opened with stop := extent.stop } := by
  obtain ⟨spans, outer, hsize, houter, hopening⟩ := exists_add_opening hscan
  have hended : ((earlier.foldl add .empty).add (.opening opened true)).add
      (.closing opened.name extent) =
        ⟨spans ++ [{ opened with stop := extent.stop }].toArray, outer⟩ := by
    rw [hopening, Written.add_closing]
  -- what has ended keeps its end
  have hlater : ∀ mark ∈ later, mark.StandsIn text ∧ 0 ≤ mark.start := by
    intro mark hmark
    refine ⟨(Mark.standsIn_of_mem_scan (standsIn_start text) mark ?_).1, Nat.zero_le _⟩
    rw [hscan]
    simp [hmark]
  have hcontinues : Continues 0
      ⟨spans ++ [{ opened with stop := extent.stop }].toArray, outer⟩ ⟨TagSpan.scan text, []⟩ := by
    rw [TagSpan.scan, hscan, List.foldl_append, List.foldl_cons, List.foldl_cons, hended]
    exact (Continues.foldl_add _ hlater).trans (.finish _ (Nat.zero_le _))
  obtain ⟨stop, hspan, hstop, -⟩ :=
    hcontinues.kept spans.size { opened with stop := extent.stop } (by simp)
  rw [hstop houter] at hspan
  rw [← hsize, hspan]

/-- An element that no tag follows ends with the text. -/
theorem getElem?_scan_of_last {earlier : List Mark} {opened : TagSpan}
    (hscan : Mark.scan ⟨0, text⟩ = earlier ++ [.opening opened true]) :
    (TagSpan.scan text)[(earlier.foldl add .empty).spans.size]? =
      some { opened with stop := byteSize text } := by
  obtain ⟨spans, outer, hsize, -, hopening⟩ := exists_add_opening hscan
  rw [TagSpan.scan, hscan, List.foldl_append, List.foldl_cons, hopening, List.foldl_nil, finish,
    getElem?_endAt, ← hsize]
  simp

end Nesting

/-! ### The elements of a text -/

namespace TagSpan

/-- No element starts in the text of an element whose content is text, as far as the scan takes that
text to go. If its name follows `</` nowhere, that is up to the end of the text, and the element
ends there. If the first such place is an end tag, the text of the element goes up to it, and the
element ends behind it. In the third case the name there is the beginning of a longer one. -/
theorem scan_rawText {t : TagSpan} (ht : t ∈ TagSpan.scan text) (hraw : isRawText t.name = true)
    (hopen : t.endsInSlash text = false) :
    ∃ content, slice? text ⟨t.startTagEnd, byteSize text⟩ = some content ∧
      (∀ b ∈ TagSpan.scan text, t.start < b.start →
        (t.textEnd content).rest ≠ [] ∧ (t.textEnd content).offset < b.start) ∧
      ((t.textEnd content).rest = [] ∧ t.endTag content = t.textEnd content ∧
          t.stop = byteSize text ∨
        Markup.startsWithEndTag t.name.toList (t.textEnd content).rest = true ∧
          t.endTag content = t.textEnd content ∧
          t.stop = ((t.endTag content).skipPast ['>']).offset ∨
        (t.textEnd content).rest ≠ [] ∧
          Markup.startsWithEndTag t.name.toList (t.textEnd content).rest = false) := by
  obtain ⟨earlier, opened, content, hspan, hcontent, hscan, hindex⟩ :=
    exists_scan_textEnd ht hraw hopen
  have hname : t.name = opened.name := by rw [hspan]
  have hstart : t.start = opened.start := by rw [hspan]
  refine ⟨content, hcontent.slice?_rest, fun b hb hlt => ?_, ?_⟩
  · exact textEnd_lt_start hraw hcontent hscan hb (hstart ▸ hlt)
  · by_cases hnil : (t.textEnd content).rest = []
    · -- no tag follows the start tag
      have hnone : Mark.scan (t.textEnd content) = [] := by rw [Mark.scan, dif_pos hnil]
      rw [hnone] at hscan
      have hended := hindex.symm.trans (Nesting.getElem?_scan_of_last hscan)
      exact .inl ⟨hnil, (textEnd_eq_endTag (.inl hnil)).symm,
        congrArg TagSpan.stop (Option.some.inj hended)⟩
    · right
      cases hends : Markup.startsWithEndTag t.name.toList (t.textEnd content).rest with
      | false => exact .inr ⟨hnil, rfl⟩
      | true =>
        -- the next tag is the end tag
        obtain ⟨-, word, hclosing, hword⟩ := scan_textEnd hraw hnil
        rw [hclosing, hword hends, hname] at hscan
        have hended := hindex.symm.trans (Nesting.getElem?_scan_of_closing hscan)
        have hsame := (textEnd_eq_endTag (.inr hends)).symm
        refine .inl ⟨rfl, hsame, ?_⟩
        rw [hsame]
        exact congrArg TagSpan.stop (Option.some.inj hended)

/-- A start tag in a style, and one behind it. -/
theorem scan_rawText_style :
    let text := "<style><b></STYLE ><i>".toList
    let style := TagSpan.mk "style" 0 6 7 19 []
    (style ∈ TagSpan.scan text ∧ isRawText style.name = true ∧ style.endsInSlash text = false) ∧
      ∃ content, slice? text ⟨style.startTagEnd, byteSize text⟩ = some content ∧
        ∀ b ∈ TagSpan.scan text, style.start < b.start →
          (style.textEnd content).rest ≠ [] ∧ (style.textEnd content).offset < b.start := by
  intro text style
  have hscan : TagSpan.scan text = #[style, ⟨"i", 19, 21, 22, 22, []⟩] := by decide +kernel
  have hstyle : style ∈ TagSpan.scan text := by simp [hscan]
  have hraw : isRawText style.name = true := by decide
  have hopen : style.endsInSlash text = false := by decide +kernel
  obtain ⟨content, hcontent, hlater, -⟩ := scan_rawText hstyle hraw hopen
  exact ⟨⟨hstyle, hraw, hopen⟩, content, hcontent, hlater⟩

/-- A longer name lets the scan look for tags in a style, and an end tag ends a `plaintext` element.
-/
theorem scan_rawText_longer_name :
    let text := "<style></stylex><b></style><b>x</b><plaintext></plaintext>c".toList
    let style := TagSpan.mk "style" 0 6 7 27 []
    let bold := TagSpan.mk "b" 16 18 19 19 []
    let plain := TagSpan.mk "plaintext" 35 45 46 58 []
    ∃ content, slice? text ⟨style.startTagEnd, byteSize text⟩ = some content ∧
      style ∈ TagSpan.scan text ∧ isRawText style.name = true ∧ style.endsInSlash text = false ∧
      bold ∈ TagSpan.scan text ∧ style.startTagEnd ≤ bold.start ∧
      bold.start < (style.endTag content).offset ∧
      plain ∈ TagSpan.scan text ∧ plain.endsInSlash text = false ∧ plain.stop ≠ byteSize text := by
  intro text style bold plain
  have hscan : TagSpan.scan text = #[style, bold, ⟨"b", 27, 29, 30, 35, []⟩, plain] := by
    decide +kernel
  rw [hscan]
  refine ⟨text.drop 7, ?_⟩
  decide +kernel

end TagSpan

end ElementLint.Span
