import ElementLint.Proofs.Document.Pairing
import ElementLint.Proofs.Markup.Custom

/-!
# Which elements have a place in the text

An element that no text may leave out has a place in the text if and only if the scan finds a start
tag of its name behind the start tags of all elements before it
(`Document.elementRange?_isSome_iff`). In a text that is written from custom elements all of these
have one (`Document.elements_parse_write`). That is not the case for every element that is written:
where the scan goes over a part of the text in which the tree has elements, these have no place
(`Document.parse_located`).
-/

namespace ElementLint

open Markup ElementLint.Span Text

/-- Numbering gives no node a span. -/
theorem Markup.Forest.span_of_mem_number (forest : Forest) (next : Nat) :
    ∀ node ∈ (forest.number next).2.1, node.span = none := by
  induction forest generalizing next with
  | nil => simp [number]
  | leaf single rest ih =>
    have hleaf : single.toNode.span = none := by cases single <;> rfl
    simpa [number, hleaf] using ih (next + 1)
  | element tag attributes children rest ihChildren ihRest =>
    simp only [number, List.mem_cons, List.mem_append]
    rintro node (rfl | hnode | hnode)
    · rfl
    · exact ihChildren _ node hnode
    · exact ihRest _ node hnode
  | template tag attributes content children rest ihContent ihChildren ihRest =>
    simp only [number, List.mem_cons, List.mem_append]
    rintro node (rfl | rfl | hnode | hnode | hnode)
    · rfl
    · rfl
    · exact ihContent _ node hnode
    · exact ihChildren _ node hnode
    · exact ihRest _ node hnode

namespace Document

variable {url contents : String} {id : NodeId} {tag : String} {span : TagSpan}

theorem tag?_of_mem_placeElements {nodes : List Node} (hnodes : ∀ node ∈ nodes, node.span = none)
    {claimed : List (Option Nat)} {node : Node} (hnode : node ∈ placeElements nodes claimed)
    (hspan : node.span.isSome = true) : node.tag?.isSome = true := by
  induction nodes generalizing claimed with
  | nil => simp [placeElements] at hnode
  | cons first nodes ih =>
    obtain ⟨hfirst, hrest⟩ := List.forall_mem_cons.1 hnodes
    -- a node that gets no span keeps the one it has, which is none
    have hkept {claimed : List (Option Nat)} (hnode : node ∈ first :: placeElements nodes claimed) :
        node.tag?.isSome = true := by
      rcases List.mem_cons.1 hnode with rfl | hnode
      · simp [hfirst] at hspan
      · exact ih hrest hnode
    cases htag : first.tag? with
    | none => exact hkept (by simpa [placeElements, htag] using hnode)
    | some tag =>
      cases claimed with
      | nil => exact hkept (by simpa [placeElements, htag] using hnode)
      | cons claim claimed =>
        simp only [placeElements, htag, List.mem_cons] at hnode
        rcases hnode with rfl | hnode
        · rw [Node.tag?_withSpan, htag, Option.isSome_some]
        · exact ih hrest hnode

/-- A node with a span is an element. -/
theorem tag?_of_mem_ofForest {forest : Forest} {spans : Array TagSpan} {node : Node}
    (hnode : node ∈ (ofForest url contents forest spans).nodes) (hspan : node.span.isSome = true) :
    node.tag?.isSome = true := by
  have hnodes : ∀ node ∈ nodesOf forest, node.span = none :=
    List.forall_mem_cons.2 ⟨rfl, forest.span_of_mem_number 1⟩
  exact tag?_of_mem_placeElements hnodes (List.mem_toArray.1 hnode) hspan

/-- The elements before a node are known by their spans. -/
theorem exists_elements_eq_append {document : Document}
    (htagged : ∀ node ∈ document.nodes, node.span.isSome = true → node.tag?.isSome = true)
    {node : Node} (hnode : document.node? id = some node) (htag : node.tag? = some tag) :
    ∃ before after, document.elements = before ++ (tag, node.span) :: after ∧
      ∀ i, some i ∈ before.map Prod.snd ↔
        ∃ earlier < id, ∃ other, document.node? earlier = some other ∧ other.span = some i := by
  obtain ⟨hsize, rfl⟩ := Array.getElem?_eq_some_iff.1 hnode
  have hlist : document.nodes.toList = document.nodes.toList.take id ++
      document.nodes[id] :: document.nodes.toList.drop (id + 1) := by
    rw [← Array.getElem_toList, ← List.drop_eq_getElem_cons, List.take_append_drop]
  refine ⟨(document.nodes.toList.take id).filterMap Node.element?,
    (document.nodes.toList.drop (id + 1)).filterMap Node.element?, ?_, fun i => ?_⟩
  · have helement : document.nodes[id].element? = some (tag, document.nodes[id].span) := by
      rw [Node.element?, htag, Option.map_some]
    rw [elements, ← List.filterMap_cons_some helement, ← List.filterMap_append, ← hlist]
  · simp only [List.mem_map, List.mem_filterMap, Node.element?, Option.map_eq_some_iff]
    constructor
    · rintro ⟨_, ⟨other, hother, _, -, rfl⟩, hspan⟩
      obtain ⟨earlier, hlt, rfl⟩ := List.mem_take_iff_getElem.1 hother
      refine ⟨earlier, (Nat.lt_min.1 hlt).1, _, ?_, hspan⟩
      rw [node?, ← Array.getElem?_toList, List.getElem?_eq_getElem]
    · rintro ⟨earlier, hlt, other, hother, hspan⟩
      obtain ⟨hsize', rfl⟩ := Array.getElem?_eq_some_iff.1 hother
      obtain ⟨name, hname⟩ := Option.isSome_iff_exists.1
        (htagged _ (Array.getElem_mem hsize') (by rw [hspan, Option.isSome_some]))
      refine ⟨_, ⟨document.nodes[earlier], ?_, name, hname, rfl⟩, hspan⟩
      have hbound : earlier < min id document.nodes.toList.length :=
        Nat.lt_min.2 ⟨hlt, by simpa using hsize'⟩
      exact List.mem_take_iff_getElem.2 ⟨earlier, hbound, by simp⟩

/-- An element that no text may leave out has a span if one of its name stands behind the spans of
the elements before it. -/
theorem isSome_span_iff {forest : Forest} {spans : Array TagSpan} {node : Node}
    (hnode : (ofForest url contents forest spans).node? id = some node)
    (htag : node.tag? = some tag) (himplied : Pairing.mayBeImplied tag = false) :
    node.span.isSome = true ↔
      ∃ (i : Nat) (span : TagSpan), spans[i]? = some span ∧ sameName span.name tag = true ∧
        ∀ earlier < id, ∀ other, (ofForest url contents forest spans).node? earlier = some other →
          ∀ taken, other.span = some taken → taken < i := by
  obtain ⟨before, after, helements, hbefore⟩ :=
    exists_elements_eq_append (fun _ => tag?_of_mem_ofForest) hnode htag
  have hclaims := elements_ofForest url contents forest spans
  generalize hnames : spans.toList.map (·.name) = spanNames at hclaims
  have hlength : (Pairing.claims 0 spanNames forest.tags).length = forest.tags.length := by
    simpa using (Pairing.claimsFrom_claims spanNames forest.tags 0).length_eq
  have hfst := congrArg (List.map Prod.fst) (helements.symm.trans hclaims)
  have hsnd := congrArg (List.map Prod.snd) (helements.symm.trans hclaims)
  rw [List.map_fst_zip hlength.ge, List.map_append, List.map_cons] at hfst
  rw [List.map_snd_zip hlength.le, List.map_append, List.map_cons, ← hfst] at hsnd
  obtain ⟨place, happend, hplace⟩ :=
    Pairing.exists_claims_append spanNames (before.map Prod.fst) (tag :: after.map Prod.fst) 0
  rw [List.drop_zero] at happend hplace
  -- the claims of the elements before it are their spans, and its own claim comes next
  have hbeforeLength : (before.map Prod.snd).length =
      (Pairing.claims 0 spanNames (before.map Prod.fst)).length := by
    have h := (Pairing.claimsFrom_claims spanNames (before.map Prod.fst) 0).length_eq
    rw [List.drop_zero] at h
    rw [h, List.length_map, List.length_map]
  obtain ⟨hbeforeSpans, hrest⟩ := List.append_inj (hsnd.trans happend) hbeforeLength
  have hclaim : node.span = Pairing.claim tag place (spanNames.drop place) := by
    cases h : Pairing.claim tag place (spanNames.drop place) with
    | none =>
      rw [Pairing.claims_cons_of_claim_eq_none h] at hrest
      exact (List.cons.inj hrest).1
    | some taken =>
      rw [Pairing.claims_cons_of_claim_eq_some h] at hrest
      exact (List.cons.inj hrest).1
  rw [hclaim, Pairing.isSome_claim_iff himplied]
  simp only [hplace, ← hbeforeSpans, hbefore]
  constructor
  · rintro ⟨i, ⟨-, hbehind⟩, spanName, hi, hsame⟩
    rw [← hnames, List.getElem?_map, Option.map_eq_some_iff] at hi
    obtain ⟨span, hi, rfl⟩ := hi
    exact ⟨i, span, by simpa using hi, hsame, fun earlier hlt other hother taken htaken =>
      hbehind taken ⟨earlier, hlt, other, hother, htaken⟩⟩
  · rintro ⟨i, span, hi, hsame, hbehind⟩
    refine ⟨i, ⟨i.zero_le, ?_⟩, span.name, ?_, hsame⟩
    · rintro taken ⟨earlier, hlt, other, hother, htaken⟩
      exact hbehind earlier hlt other hother taken htaken
    · rw [← hnames, List.getElem?_map, Array.getElem?_toList, hi, Option.map_some]

/-- The place of a start tag in the list of spans tells where it stands. -/
theorem start_lt_start_iff {text : List Char} {i j : Nat} {span other : TagSpan}
    (hi : (TagSpan.scan text)[i]? = some span) (hj : (TagSpan.scan text)[j]? = some other) :
    other.start < span.start ↔ j < i := by
  have hlt {i j : Nat} {span other : TagSpan} (hi : (TagSpan.scan text)[i]? = some span)
      (hj : (TagSpan.scan text)[j]? = some other) (hji : j < i) : other.start < span.start := by
    have hle := (Nesting.wellNested_scan text).startTagEnd_le j i other span hji hj hi
    have hstands := (Nesting.wellNested_scan text).standsIn j other hj
    exact (hstands.start_lt_nameEnd.trans_le hstands.nameEnd_le_startTagEnd).trans_le hle
  refine ⟨fun hstart => ?_, hlt hi hj⟩
  rcases Nat.lt_trichotomy j i with hji | rfl | hij
  · exact hji
  · obtain rfl := Option.some.inj (hi.symm.trans hj)
    exact absurd hstart (Nat.lt_irrefl _)
  · exact absurd (hlt hj hi hij) hstart.asymm

theorem mayBeImplied_of_hyphen_mem (h : '-' ∈ tag.toList) : Pairing.mayBeImplied tag = false := by
  have hnone : ∀ name ∈ Pairing.impliedNames, '-' ∉ name.toList := by decide
  refine Bool.eq_false_iff.2 fun himplied => ?_
  exact hnone tag (by simpa [Pairing.mayBeImplied] using himplied) h

/-- What an element has as its span is one of the spans of its name. -/
theorem exists_span_of_span_eq_some {forest : Forest} {spans : Array TagSpan} {node : Node}
    {i : Nat} (hnode : (ofForest url contents forest spans).node? id = some node)
    (htag : node.tag? = some tag) (hi : node.span = some i) :
    ∃ span, spans[i]? = some span ∧ sameName span.name tag = true := by
  have hmem : (tag, some i) ∈ (ofForest url contents forest spans).elements := by
    refine List.mem_filterMap.2 ⟨node, Array.mem_toList_iff.2 (Array.mem_of_getElem? hnode), ?_⟩
    rw [Node.element?, htag, Option.map_some, hi]
  rw [elements_ofForest] at hmem
  have hclaims := Pairing.claimsFrom_claims (spans.toList.map (·.name)) forest.tags 0
  rw [List.drop_zero] at hclaims
  obtain ⟨spanName, hname, hsame⟩ := hclaims.names_of_mem tag i hmem
  rw [List.getElem?_map, Option.map_eq_some_iff] at hname
  obtain ⟨span, hspan, rfl⟩ := hname
  exact ⟨span, by simpa using hspan, hsame⟩

theorem span?_eq_some_iff {document : Document} :
    document.span? id = some span ↔
      ∃ (node : Node) (i : Nat), document.node? id = some node ∧ node.span = some i ∧
        document.spans[i]? = some span := by
  simp [span?, Option.bind_eq_some_iff]

theorem elementRange?_isSome_eq {node : Node} (hnode : (parse url contents).node? id = some node)
    (htag : node.tag? = some tag) :
    ((parse url contents).elementRange? id).isSome = node.span.isSome := by
  rw [elementRange?, Option.isSome_map, Bool.eq_iff_iff]
  constructor
  · intro h
    obtain ⟨span, hspan⟩ := Option.isSome_iff_exists.1 h
    obtain ⟨found, i, hfound, hi, -⟩ := span?_eq_some_iff.1 hspan
    obtain rfl := Option.some.inj (hnode.symm.trans hfound)
    rw [hi, Option.isSome_some]
  · intro h
    obtain ⟨i, hi⟩ := Option.isSome_iff_exists.1 h
    obtain ⟨span, hspan, -⟩ := exists_span_of_span_eq_some hnode htag hi
    rw [span?_eq_some_iff.2 ⟨node, i, hnode, hi, hspan⟩, Option.isSome_some]

/-- An element that no text may leave out has a place in the text if a start tag of its name, among
those that the scan finds, stands behind the start tags of all elements before it. -/
theorem elementRange?_isSome_iff (htag : (parse url contents).tagName? id = some tag)
    (himplied : Pairing.mayBeImplied tag = false) :
    ((parse url contents).elementRange? id).isSome = true ↔
      ∃ span ∈ TagSpan.scan contents.toList, sameName span.name tag = true ∧
        ∀ earlier < id, ∀ other, (parse url contents).span? earlier = some other →
          other.start < span.start := by
  obtain ⟨node, hnode, htag⟩ := Option.bind_eq_some_iff.1 htag
  rw [elementRange?_isSome_eq hnode htag, isSome_span_iff hnode htag himplied]
  constructor
  · rintro ⟨i, span, hi, hsame, hbehind⟩
    refine ⟨span, Array.mem_of_getElem? hi, hsame, fun earlier hlt other hother => ?_⟩
    obtain ⟨found, j, hfound, hj, hother⟩ := span?_eq_some_iff.1 hother
    exact (start_lt_start_iff hi hother).2 (hbehind earlier hlt found hfound j hj)
  · rintro ⟨span, hmem, hsame, hbehind⟩
    obtain ⟨i, hi⟩ := Array.mem_iff_getElem?.1 hmem
    refine ⟨i, span, hi, hsame, fun earlier hlt found hfound j hj => ?_⟩
    obtain ⟨name, hname⟩ := Option.isSome_iff_exists.1 (tag?_of_mem_ofForest
      (Array.mem_of_getElem? hfound) (by rw [hj, Option.isSome_some]))
    obtain ⟨other, hother, -⟩ := exists_span_of_span_eq_some hfound hname hj
    exact (start_lt_start_iff hi hother).1
      (hbehind earlier hlt other (span?_eq_some_iff.2 ⟨found, j, hfound, hj, hother⟩))

/-- A comment that is over as soon as it has begun hides the tags behind it from the scan. -/
theorem scan_of_abruptComment {run after : List Char} (hrun : '<' ∉ run)
    (hafter : ¬ ['-', '-', '>'] <:+: after) :
    TagSpan.scan (run ++ ['<', '!', '-', '-', '>'] ++ after) = #[] := by
  have hmarks : Mark.scan ⟨0, run ++ (['<', '!', '-', '-', '>'] ++ after)⟩ = [] := by
    rw [Written.scan_text hrun, Nat.zero_add]
    have hend :
        ((Cursor.mk (byteSize run + 4) ('>' :: after)).skipPast ['-', '-', '>']).rest = [] :=
      Cursor.rest_skipPast_eq_nil (by simpa [List.infix_cons_iff] using hafter)
    have hnext : Mark.next ⟨byteSize run, ['<', '!', '-', '-', '>'] ++ after⟩ =
        (none, (Cursor.mk (byteSize run + 4) ('>' :: after)).skipPast ['-', '-', '>']) := rfl
    rw [Mark.scan_eq_append (by simp) hnext, Mark.scan, dif_pos hend]
    rfl
  rw [List.append_assoc, TagSpan.scan, hmarks]
  rfl

/-- A name without a hyphen in it is not that of a custom element. -/
theorem sameName_eq_false_of_hyphen_mem {name other : String} (h : '-' ∈ name.toList)
    (hother : '-' ∉ lower other.toList) : sameName name other = false := by
  rw [sameName, beq_eq_false_iff_ne]
  intro heq
  exact hother (heq ▸ List.mem_map.2 ⟨'-', h, rfl⟩)

/-- The elements of a text that is written from custom elements are those that are supplied, which
have no span, and then the custom elements, which have their spans one by one. -/
theorem elements_parse_write (url : String) {contents : String} (name : Written.ElementName)
    (attributes : List Written.Attribute) (children rest : Written.Forest) :
    let forest : Written.Forest := .element name attributes children rest
    forest.IsCustom → '\ufeff' ∉ forest.write → contents.toList = forest.write →
      (parse url contents).elements =
        ["html", "head", "body"].map (·, none) ++
          forest.names.zip ((List.range' 0 forest.names.length).map some) := by
  intro forest hcustom hmark hcontents
  generalize hnames : forest.names = names
  have htags : (Markup.parse contents.toList).tags = "html" :: "head" :: "body" :: names := by
    rw [hcontents, ← hnames]
    exact Markup.tags_parse_write name attributes children rest hcustom hmark
  have hspans : (TagSpan.scan contents.toList).toList.map (·.name) = names := by
    rw [hcontents, TagSpan.scan, Written.markScan_eq_marks, Nesting.empty, Written.foldl_add_marks]
    simp [Nesting.finish, Nesting.endAt, Written.names_spans, hnames]
  have hhyphen : ∀ name ∈ names, '-' ∈ name.toList :=
    hnames ▸ Written.Forest.hyphen_mem_names hcustom
  have hhead (other : String) (hother : '-' ∉ lower other.toList) :
      ∀ spanName ∈ names.head?, sameName spanName other = false := fun spanName hmem =>
    sameName_eq_false_of_hyphen_mem (hhyphen spanName (List.mem_of_mem_head? hmem)) hother
  -- the first span is that of a custom element, so what is supplied passes it by
  rw [parse, elements_ofForest, htags, hspans,
    Pairing.claims_cons_of_head? rfl (hhead "html" (by decide)),
    Pairing.claims_cons_of_head? rfl (hhead "head" (by decide)),
    Pairing.claims_cons_of_head? rfl (hhead "body" (by decide)), Pairing.claims_self]
  rfl

/-- An element in another one, and an attribute whose value looks like a tag. -/
example :
    let name : Written.ElementName :=
      ⟨'a', ['-', 'b'], by decide, by decide, by decide, by decide, by decide⟩
    let entry : Written.Attribute :=
      ⟨⟨['c'], by decide, by decide⟩, some ⟨'"', "<d-e>".toList, by decide, by decide⟩⟩
    let forest : Written.Forest := .element name [entry] (.element name [] .nil .nil) .nil
    forest.IsCustom ∧ (parse "" (String.ofList forest.write)).elements =
      [("html", none), ("head", none), ("body", none), ("a-b", some 0), ("a-b", some 1)] := by
  refine ⟨⟨by decide, ⟨by decide, trivial, trivial⟩, trivial⟩, ?_⟩
  decide +kernel

/-- An element with a hyphen in its name has a place in the text exactly if a start tag of its
name, among those that the scan finds, stands behind the start tags of all elements before it. Where
the text is written from such elements, all of them have one. But the scan may miss tags: behind a
comment that is over as soon as it has begun no element has a place, unless another comment ends
there. -/
theorem parse_located (url contents : String) :
    (∀ id tag, (parse url contents).tagName? id = some tag → '-' ∈ tag.toList →
      (((parse url contents).elementRange? id).isSome = true ↔
        ∃ span ∈ TagSpan.scan contents.toList, sameName span.name tag = true ∧
          ∀ earlier < id, ∀ other, (parse url contents).span? earlier = some other →
            other.start < span.start)) ∧
      (∀ name attributes children rest,
        let forest : Written.Forest := .element name attributes children rest
        forest.IsCustom → '\ufeff' ∉ forest.write → contents.toList = forest.write →
          ∀ id tag, (parse url contents).tagName? id = some tag → '-' ∈ tag.toList →
            ((parse url contents).elementRange? id).isSome = true) ∧
      ∀ run after, contents.toList = run ++ ['<', '!', '-', '-', '>'] ++ after → '<' ∉ run →
        ¬ ['-', '-', '>'] <:+: after → ∀ id, (parse url contents).elementRange? id = none := by
  refine ⟨fun id tag htag hhyphen =>
    elementRange?_isSome_iff htag (mayBeImplied_of_hyphen_mem hhyphen), ?_, ?_⟩
  · intro name attributes children rest forest hcustom hmark hcontents id tag htag hhyphen
    obtain ⟨node, hnode, htag⟩ := Option.bind_eq_some_iff.1 htag
    rw [elementRange?_isSome_eq hnode htag]
    have hmem : (tag, node.span) ∈ (parse url contents).elements := by
      refine List.mem_filterMap.2 ⟨node, Array.mem_toList_iff.2 (Array.mem_of_getElem? hnode), ?_⟩
      rw [Node.element?, htag, Option.map_some]
    rw [elements_parse_write url name attributes children rest hcustom hmark hcontents] at hmem
    rcases List.mem_append.1 hmem with hmem | hmem
    · -- what is supplied has no hyphen in its name
      obtain ⟨other, hother, heq⟩ := List.mem_map.1 hmem
      have hnone : ∀ name ∈ ["html", "head", "body"], '-' ∉ name.toList := by decide
      exact absurd ((Prod.mk.inj heq).1 ▸ hhyphen) (hnone other hother)
    · obtain ⟨i, -, hi⟩ := List.mem_map.1 (List.of_mem_zip hmem).2
      rw [← hi, Option.isSome_some]
  · intro run after hcontents hrun hafter id
    have hspans : (parse url contents).spans = #[] := by
      rw [← scan_of_abruptComment hrun hafter, ← hcontents]
      rfl
    rw [elementRange?, Option.map_eq_none_iff, Option.eq_none_iff_forall_ne_some]
    intro span hspan
    obtain ⟨_, i, -, -, hi⟩ := span?_eq_some_iff.1 hspan
    simp [hspans] at hi

/-- An element behind such a comment has no place, though the text writes it out. -/
theorem parse_located_abrupt :
    let document := parse "doc.html" "<!--><x-a></x-a>"
    document.tagName? 5 = some "x-a" ∧ '-' ∈ "x-a".toList ∧ document.elementRange? 5 = none := by
  decide +kernel

end Document

end ElementLint
