import HtmlWalk.Html.Parse
import HtmlWalk.Proofs.Html.SessionLines
import HtmlWalk.Proofs.Html.StartTags

/-!
# Where nodes start

The tree of a fragment that consists of some text and an element with some text in it
(`parseFragment_element`), for every way to write the text and the start tag of the element.

**Theorem (`parseFragment_textLine`).** A text is on the line where it starts in the source, unless
it starts with a reference to a line feed. That line break is taken off the line, although it is not
in the source.

**Theorem (`parseFragment_elementLine`).** An element is on the line where its start tag ends: the
line breaks in the tag count.

A text and a comment are placed before the line breaks in them, while the line breaks in a tag are
not taken off. For a text the line breaks are counted in its characters, not in its source, hence
the exception.
-/

namespace HtmlWalk

namespace Html

/-! ## The tree builder in a fragment -/

/-- The start tags that just open an element: those of blocks and of formatting elements. -/
def plainTags : List String := blockTags ++ formattingTags

namespace Builder

/-- No rule comes before the one for blocks. -/
theorem of_mem_blockTags : ∀ name ∈ blockTags,
    name ≠ "image" ∧ name ≠ "html" ∧ name ∉ headTags ∧ name ≠ "body" ∧ name ≠ "frameset" := by
  decide

/-- No rule comes before the one for formatting elements. -/
theorem of_mem_formattingTags : ∀ name ∈ formattingTags,
    name ≠ "image" ∧ name ≠ "html" ∧ name ∉ headTags ∧ name ≠ "body" ∧ name ≠ "frameset" ∧
      name ∉ blockTags ∧ name ∉ headingTags ∧ ¬(name = "pre" ∨ name = "listing") ∧
        name ≠ "form" ∧ name ≠ "li" ∧ ¬(name = "dd" ∨ name = "dt") ∧ name ≠ "plaintext" ∧
          name ≠ "button" ∧ name ≠ "a" := by
  decide

/-- At the start of a template these tags ask for the rules of the body. -/
theorem of_mem_plainTags : ∀ name ∈ plainTags,
    name ∉ headTags ∧ name ≠ "caption" ∧ name ≠ "colgroup" ∧ name ∉ sectionTags ∧
      name ≠ "col" ∧ name ≠ "tr" ∧ name ≠ "td" ∧ name ≠ "th" := by
  decide

theorem isHtml_template_of_mem_plainTags : ∀ name ∈ plainTags,
    Name.isHtml { tag := name } "template" = false := by
  decide

theorem startInBody_of_mem_blockTags (b : Builder) {tag : Tag} (h : tag.name ∈ blockTags) :
    b.startInBody tag = .done (b.endParagraph.insert tag) := by
  obtain ⟨himage, hhtml, hhead, hbody, hframeset⟩ := of_mem_blockTags _ h
  simp [startInBody, himage, hhtml, hhead, hbody, hframeset, h]

theorem startInBody_of_mem_formattingTags (b : Builder) {tag : Tag}
    (h : tag.name ∈ formattingTags) :
    b.startInBody tag = .done (b.reopenFormatting.insertFormatting tag) := by
  obtain ⟨himage, hhtml, hhead, hbody, hframeset, hblock, hheading, hpre, hform, hli, hdd,
    hplaintext, hbutton, ha⟩ := of_mem_formattingTags _ h
  simp [startInBody, himage, hhtml, hhead, hbody, hframeset, hblock, hheading, hpre, hform, hli,
    hdd, hplaintext, hbutton, ha, h]

/-- The builder at the start of a fragment. -/
def atFragment (scripting : Bool) : Builder where
  scripting
  fragment := true
  layout := .noQuirks
  root := ⟨0, { tag := "html" }, false⟩
  mode := .inTemplate
  templates := [.inTemplate]
  edits := rootEdits.toArray

theorem takesText_atFragment (scripting : Bool) : (atFragment scripting).TakesText 0 :=
  ⟨.inl rfl, rfl, rfl, nofun, rfl⟩

/-- The builder after an element has been opened at the top of a fragment, after so many edits. -/
def inElement (scripting : Bool) (size : Nat) (tag : Tag) : Builder :=
  { atFragment scripting with
    mode := .inBody
    templates := [.inBody]
    stack := [⟨size + 1, { tag := tag.name }, false⟩]
    formatting := if tag.name ∈ blockTags then [] else [.element (size + 1) tag] }

theorem takesText_inElement (scripting : Bool) (size : Nat) {tag : Tag}
    (h : tag.name ∈ plainTags) : (inElement scripting size tag).TakesText (size + 1) := by
  refine ⟨.inr rfl, rfl, ?_, ?_, rfl⟩
  · simp [targetIn, inElement, atFragment, current, Open.place,
      isHtml_template_of_mem_plainTags _ h]
  · intro entry hentry
    simp only [inElement] at hentry
    split at hentry
    · cases hentry
    · cases hentry
      simp [isSettled, isOpen, opens, inElement]

theorem hasOpen_inElement (scripting : Bool) (size : Nat) {tag : Tag} (h : tag.name ∈ plainTags) :
    (inElement scripting size tag).hasOpen "template" = false := by
  have hroot : Name.isHtml { tag := "html" } "template" = false := rfl
  simp [hasOpen, opens, inElement, atFragment, isHtml_template_of_mem_plainTags _ h, hroot]

/-- The builder at the start of a fragment, where its first tag has asked for the rules of the
body. -/
def turned (scripting : Bool) : Builder :=
  { atFragment scripting with mode := .inBody, templates := [.inBody] }

/-- At the start of a fragment a tag asks for the rules of the body. -/
theorem once_atFragment (scripting ok : Bool) (es : List Edit) {tag : Tag}
    (h : tag.name ∈ plainTags) : ((atFragment scripting).wrote ok es).once (.startTag tag) =
      .again ((turned scripting).wrote ok es) := by
  obtain ⟨hhead, hcaption, hcolgroup, hsection, hcol, hrow, htd, hth⟩ := of_mem_plainTags _ h
  have hforeign : ((atFragment scripting).wrote ok es).isForeign (.startTag tag) = false := rfl
  rw [once, hforeign]
  simp [byMode, wrote, atFragment, turned, inTemplate, hhead, hcaption, hcolgroup, hsection, hcol,
    hrow, htd, hth, turnTemplate]

theorem insertFormatting_of_nil {b : Builder} (h : b.formatting = []) (tag : Tag) :
    b.insertFormatting tag = { b.insert tag with formatting := [.element b.nextId tag] } := by
  simp [insertFormatting, recentFormatting, h]

/-- The rules of the body open an element at the top of a fragment. -/
theorem once_turned (scripting ok : Bool) (es : List Edit) {tag : Tag} (h : tag.name ∈ plainTags) :
    ((turned scripting).wrote ok es).once (.startTag tag) =
      .done ((inElement scripting (1 + es.length) tag).wrote ok (es ++
        [.element { tag := tag.name } tag.attrs,
          .append (.children 0) (.node (2 + es.length))])) := by
  set b := (turned scripting).wrote ok es with hb
  have hrules : b.once (.startTag tag) = b.startInBody tag := by
    have hforeign : b.isForeign (.startTag tag) = false := rfl
    rw [once, hforeign]
    rfl
  have hid : b.nextId = 1 + es.length + 1 := by
    rw [nextId, hb, wrote, Array.size_append, List.size_toArray, Nat.add_right_comm]
    rfl
  have hinsert : b.insert tag = { b with
      stack := [⟨1 + es.length + 1, { tag := tag.name }, false⟩]
      edits := (b.edits.push (.element { tag := tag.name } tag.attrs)).push
        (.append (.children 0) (.node (1 + es.length + 1))) } := by
    rw [← hid]
    rfl
  have hsize : 2 + es.length = 1 + es.length + 1 := by omega
  rw [hrules, hsize]
  by_cases hblock : tag.name ∈ blockTags
  · have hparagraph : b.endParagraph = b := rfl
    rw [startInBody_of_mem_blockTags b hblock, hparagraph, hinsert]
    simp [hb, wrote, turned, inElement, atFragment, hblock]
  · have hformatting : tag.name ∈ formattingTags := (List.mem_append.1 h).resolve_left hblock
    have hreopen : b.reopenFormatting = b := rfl
    rw [startInBody_of_mem_formattingTags b hformatting, hreopen, insertFormatting_of_nil rfl,
      hinsert, hid]
    simp [hb, wrote, turned, inElement, atFragment, hblock]

/-- **A tag at the top of a fragment** opens its element. -/
theorem token_startTag (scripting ok : Bool) (es : List Edit) (line : Nat) {tag : Tag}
    (h : tag.name ∈ plainTags) :
    (Stage.building ((atFragment scripting).wrote ok es)).token line (.startTag tag) =
      (.building ((inElement scripting (2 + es.length) tag).wrote ok
        (es ++ Dom.adds 0 line { tag := tag.name } tag.attrs (2 + es.length))), none) := by
  set es' := es ++ [.line line] with hes'
  have hpiece : ((atFragment scripting).wrote ok es').piece (.startTag tag) =
      ((inElement scripting (1 + es'.length) tag).wrote ok (es' ++ [
        .element { tag := tag.name } tag.attrs, .append (.children 0) (.node (2 + es'.length))]),
        none) := by
    show pieceWithin (.startTag tag) (7 + 1 + 1) _ = _
    rw [pieceWithin, once_atFragment _ _ _ h]
    dsimp only
    rw [pieceWithin, once_turned _ _ _ h]
  have hsize : 1 + es'.length = 2 + es.length := by
    rw [hes', List.length_append, List.length_singleton]
    omega
  have hsize' : 2 + es'.length = 2 + es.length + 1 := by omega
  have hadds : es' ++ [.element { tag := tag.name } tag.attrs,
      .append (.children 0) (.node (2 + es.length + 1))] =
        es ++ Dom.adds 0 line { tag := tag.name } tag.attrs (2 + es.length) := by
    simp [hes', Dom.adds]
  rw [hsize, hsize', hadds] at hpiece
  rw [Stage.token, ((takesText_atFragment scripting).wrote ok es).enter]
  dsimp only
  rw [wrote_wrote]
  exact congrArg (fun r : Builder × Option Signal => (Stage.building r.1, r.2)) hpiece

end Builder

/-! ## Sources of text and an element -/

/-- The text but for a byte order mark at its start. -/
def heard : List WrittenChar → List WrittenChar
  | .literal c :: cs => if c = Session.byteOrderMark then cs else .literal c :: cs
  | cs => cs

/-- The node of a text that starts on that line, if it has any characters. -/
def textOf (located : Bool) (line : Nat) : List WrittenChar → List Node
  | [] => []
  | c :: cs => [.text ⟨String.ofList ((c :: cs).map WrittenChar.char),
      if located then some (c.startLine line) else none⟩]

theorem textNodes_eq_textOf {chunks : List Chunk} {cs : List WrittenChar} {line : Nat}
    (hwritten : written chunks = cs.map WrittenChar.char)
    (hstart : startLine? chunks = cs.head?.map (·.startLine line)) (located : Bool) :
    textNodes located chunks = textOf located line cs := by
  cases chunks with
  | nil =>
    cases cs with
    | nil => rfl
    | cons c cs => cases hstart
  | cons chunk chunks =>
    cases cs with
    | nil => cases hstart
    | cons c cs => simp [textNodes, textOf, hwritten, hstart]

theorem isProper_of_mem_heard {cs : List WrittenChar} (hcs : ∀ c ∈ cs, c.isProper = true) :
    ∀ c ∈ heard cs, c.isProper = true := by
  unfold heard
  split
  · split
    · exact (List.forall_mem_cons.1 hcs).2
    · exact hcs
  · exact hcs

theorem lineBreaks_textSource_heard (cs : List WrittenChar) :
    lineBreaks (textSource (heard cs)) = lineBreaks (textSource cs) := by
  unfold heard
  split
  · split
    · next c cs hc =>
      subst hc
      rfl
    · rfl
  · rfl

namespace Session

/-- Only a byte order mark is read in another way at the start of a source. -/
theorem read_fresh {s : Session} (hs : s.fresh = false) (c : Char) :
    { s with fresh := true }.read c = if c = byteOrderMark then s else s.read c := by
  by_cases hc : c = byteOrderMark
  · simp [read, hc, ← hs]
  · simp [read, hc, hs]

/-- A byte order mark at the start of a source is dropped. -/
theorem foldl_read_heard {s : Session} (hs : s.fresh = false) (cs : List WrittenChar)
    (w : WrittenTag) (rest : List Char) :
    (textSource cs ++ w.source ++ rest).foldl read { s with fresh := true } =
      (textSource (heard cs) ++ w.source ++ rest).foldl read s := by
  have hother : ∀ {c : Char} (cs : List Char), c ≠ byteOrderMark →
      (c :: cs).foldl read { s with fresh := true } = (c :: cs).foldl read s := by
    intro c cs hc
    rw [List.foldl_cons, List.foldl_cons, read_fresh hs, if_neg hc]
  match cs with
  | [] => exact hother _ (by decide)
  | .reference digits :: cs => exact hother _ (by decide)
  | .literal c :: cs =>
    by_cases hc : c = byteOrderMark
    · have hheard : heard (.literal c :: cs) = cs := if_pos hc
      rw [hheard, show textSource (.literal c :: cs) = c :: textSource cs from rfl,
        List.cons_append, List.cons_append, List.foldl_cons, read_fresh hs, if_pos hc]
    · have hheard : heard (.literal c :: cs) = .literal c :: cs := if_neg hc
      rw [hheard]
      exact hother _ hc

/-- The first part of a fragment is read without its byte order mark. -/
theorem feed_fragment (options : ParseOptions) (cs : List WrittenChar) (w : WrittenTag)
    (rest : List Char) : (fragment options).feed (textSource cs ++ w.source ++ rest) =
      let s := (textSource (heard cs) ++ w.source ++ rest).foldl read (fragment options)
      deliver { s with tokenizer := s.tokenizer.pause } := by
  have hne : (textSource cs ++ w.source ++ rest).isEmpty = false := by
    simp [WrittenTag.source]
  have hread := foldl_read_heard (s := fragment options) rfl cs w rest
  rw [feed, hne]
  dsimp only
  rw [hread]
  rfl

/-- **The edits of text and an element.** The element is made on the line where its tag ends. -/
theorem finish_feed_element (options : ParseOptions) {before inside : List WrittenChar}
    (hbefore : ∀ c ∈ before, c.isProper = true) (hinside : ∀ c ∈ inside, c.isProper = true)
    {w : WrittenTag} (hw : w.IsProper) (hname : w.name ∈ plainTags) :
    let line := 1 + lineBreaks (textSource before) + lineBreaks w.source
    ∃ (outer inner : List Chunk) (last : Nat),
      (written outer = (heard before).map WrittenChar.char ∧
        startLine? outer = (heard before).head?.map (·.startLine 1)) ∧
      (written inner = inside.map WrittenChar.char ∧
        startLine? inner = inside.head?.map (·.startLine line)) ∧
      ((fragment options).feed (textSource before ++ w.source ++ textSource inside)).finish =
        elementEdits outer line { tag := w.name } w.tag.attrs inner last := by
  intro line
  have ht : (fragment options).tokenizer.InText := ⟨rfl, rfl, rfl, rfl, rfl, rfl⟩
  have hb := Builder.takesText_atFragment options.scripting
  -- The text before the tag.
  have houter := (Reads.zero (t := (fragment options).tokenizer) _ 0 rfl).writtenText hb ht
    (isProper_of_mem_heard hbefore) (Nat.le_refl 1)
  rw [lineBreaks_textSource_heard, List.nil_append, Option.none_or] at houter
  -- The tag.
  obtain ⟨outer, ok, hwritten, hstart, htag⟩ := houter.startTag hb ht hw
  rw [token_eq] at htag
  dsimp only at htag
  rw [Builder.token_startTag _ _ _ _ hname] at htag
  set size := 2 + (writes 0 outer).length with hsize
  set es := writes 0 outer ++ Dom.adds 0 line { tag := w.name } w.tag.attrs size with hes
  set b := (Builder.inElement options.scripting size w.tag).wrote ok es with hwrote
  set t : Tokenizer := { (fragment options).tokenizer with
    line, run := [], lastStart := w.name, draft := {} }
  have htag' : (textSource (heard before) ++ w.source).foldl read (fragment options) =
      ⟨t, .building b, false⟩ := by
    rw [List.foldl_append]
    exact htag
  -- The text in the element, and the end.
  have ht' : t.InText := ⟨rfl, rfl, rfl, rfl, rfl, rfl⟩
  have hb' : b.TakesText (size + 1) := (Builder.takesText_inElement _ size hname).wrote ok es
  have hline : 1 ≤ line := Nat.le_trans (Nat.le_add_right 1 _) (Nat.le_add_right _ _)
  have hinner := (Reads.zero (t := t) b (size + 1) rfl).writtenText hb' ht' hinside hline
  rw [List.nil_append, Option.none_or] at hinner
  obtain ⟨inner, hwritten', hstart', hfinish⟩ := hinner.finish hb' ht'
    (Builder.hasOpen_inElement options.scripting size hname)
  refine ⟨outer, inner, t.line + lineBreaks (textSource inside), ⟨hwritten, hstart⟩,
    ⟨hwritten', hstart'⟩, ?_⟩
  have hsize' : size = 2 + 2 * outer.length := by rw [hsize, length_writes]
  rw [feed_fragment, List.foldl_append, htag']
  refine hfinish.trans ?_
  have hedits : b.edits.toList = rootEdits ++ es := by
    simp [hwrote, Builder.wrote, Builder.inElement, Builder.atFragment]
  rw [hedits, hes, elementEdits, ← hsize']
  simp only [List.append_assoc]

end Session

/-- **Text, and an element with text in it.** The element is on the line where its tag ends. -/
theorem parseFragment_element (options : ParseOptions) {before inside : List WrittenChar}
    (hbefore : ∀ c ∈ before, c.isProper = true) (hinside : ∀ c ∈ inside, c.isProper = true)
    {w : WrittenTag} (hw : w.IsProper) (hname : w.name ∈ plainTags) :
    let line := 1 + lineBreaks (textSource before) + lineBreaks w.source
    parseFragment (String.ofList (textSource before ++ w.source ++ textSource inside)) options =
      .fragment (textOf options.sourceLines 1 (heard before) ++
        [.element ⟨w.name, Space.html.uri, w.tag.attrs,
            if options.sourceLines then some line else none⟩
          (textOf options.sourceLines line inside)]) := by
  intro line
  obtain ⟨outer, inner, last, ⟨hwritten, hstart⟩, ⟨hwritten', hstart'⟩, hfinish⟩ :=
    Session.finish_feed_element options hbefore hinside hw hname
  have hnumbered := ((Session.numbered_fragment options).feed
    (textSource before ++ w.source ++ textSource inside)).finish
  rw [hfinish] at hnumbered
  have htemplate := Builder.isHtml_template_of_mem_plainTags _ hname
  have hnodes := toNodesAll_elementEdits options htemplate hnumbered
  rw [textNodes_eq_textOf hwritten hstart, textNodes_eq_textOf hwritten' hstart'] at hnodes
  rw [parseFragment, String.toList_ofList, hfinish, hnodes]

end Html

/-! ## Lines -/

open Html

/-- **The line of a text.** It is the line where the text starts in the source, unless the text
starts with a reference to a line feed: that line break is taken off the line, although it is not in
the source. -/
theorem parseFragment_textLine (options : ParseOptions) (hlines : options.sourceLines = true)
    {pre : List Char} (hpre : ∀ c ∈ pre, isPlain c = true) {first : WrittenChar}
    {rest : List WrittenChar} (hrun : ∀ c ∈ first :: rest, c.isProper = true) :
    parseFragment (String.ofList (pre ++ "<b>".toList ++ textSource (first :: rest))) options =
      .fragment (textOf true 1 (heard (pre.map .literal)) ++
        [.element ⟨"b", Space.html.uri, [], some (1 + lineBreaks pre)⟩
          [.text ⟨String.ofList ((first :: rest).map WrittenChar.char),
            some (if first.char = '\n' ∧ first ≠ .literal '\n' then max (lineBreaks pre) 1
              else 1 + lineBreaks pre)⟩]]) := by
  have hw : WrittenTag.IsProper { name := "b" } := by
    refine ⟨List.all_eq_true.1 ?_, ?_, nofun, List.nodup_nil, nofun⟩
    · decide
    · decide
  have h := parseFragment_element options (isProper_literals hpre) hrun hw (by decide)
  have hbreaks : lineBreaks (WrittenTag.source { name := "b" }) = 0 := rfl
  have hline : first.startLine (1 + lineBreaks pre) =
      if first.char = '\n' ∧ first ≠ .literal '\n' then max (lineBreaks pre) 1
        else 1 + lineBreaks pre := by
    cases first with
    | literal c =>
      rw [WrittenChar.startLine_literal (Nat.le_add_right 1 _), if_neg]
      rintro ⟨rfl, hne⟩
      exact hne rfl
    | reference digits =>
      have hdigits := hrun _ List.mem_cons_self
      rw [WrittenChar.isProper, Bool.and_eq_true] at hdigits
      rw [WrittenChar.startLine, WrittenChar.lineBreaks_reference hdigits.2, Nat.add_zero]
      by_cases hbreak : (WrittenChar.reference digits).char = '\n'
      · simp [hbreak, lineBreaks]
      · simp [hbreak, lineBreaks]
  simp only [textSource_literals, hbreaks, Nat.add_zero, hlines, if_true] at h
  rw [textOf, hline] at h
  exact h

/-- A text that starts with a reference to a line feed. -/
theorem parseFragment_textLine_reference :
    (∀ c ∈ "x\ny".toList, isPlain c = true) ∧
      (∀ c ∈ [WrittenChar.reference "10".toList, .literal 'z', .reference "065".toList],
        c.isProper = true) ∧
      parseFragment "x\ny<b>&#10;z&#065;" { sourceLines := true } =
        .fragment [.text ⟨"x\ny", some 1⟩,
          .element ⟨"b", Space.html.uri, [], some 2⟩ [.text ⟨"\nzA", some 1⟩]] :=
  have hpre : ∀ c ∈ "x\ny".toList, isPlain c = true := List.all_eq_true.1 (by decide)
  ⟨hpre, by decide, @parseFragment_textLine { sourceLines := true } rfl "x\ny".toList hpre
    (.reference "10".toList) [.literal 'z', .reference "065".toList] (by decide)⟩

/-- The text starts on the second line of the source, and it is placed on the first one. -/
theorem parseFragment_textLine_ne : ∃ text : Text,
    parseFragment "\n<b>&#10;x" { sourceLines := true } = .fragment [.text ⟨"\n", some 1⟩,
      .element ⟨"b", Space.html.uri, [], some 2⟩ [.text text]] ∧
    text.line ≠ some (1 + lineBreaks "\n".toList) :=
  ⟨⟨"\nx", some 1⟩, by decide +kernel, by decide⟩

/-- **The line of an element** is the line where its start tag ends. -/
theorem parseFragment_elementLine (options : ParseOptions) (hlines : options.sourceLines = true)
    {pre : List Char} (hpre : ∀ c ∈ pre, isPlain c = true) {attrs : List WrittenAttr}
    (hattrs : ∀ a ∈ attrs, a.IsProper) (hdistinct : (attrs.map (·.attr.name)).Nodup)
    {blanks : List Char} (hblanks : ∀ c ∈ blanks, isBlank c = true) :
    let tag := "<div".toList ++ attrs.flatMap WrittenAttr.source ++ blanks ++ ">".toList
    parseFragment (String.ofList (pre ++ tag)) options =
      .fragment (textOf true 1 (heard (pre.map .literal)) ++
        [.element ⟨"div", Space.html.uri, attrs.map (·.attr),
          some (1 + lineBreaks pre + lineBreaks tag)⟩ []]) := by
  intro tag
  have hnameChars : ∀ c ∈ "div".toList, isNameChar c = true :=
    List.all_eq_true.1 (by decide)
  have hletter : "div".toList.head?.any Char.isAlpha = true := by decide
  have hplain : "div" ∈ plainTags := by decide
  have hopen : "<div".toList = '<' :: "div".toList := by decide
  have hw : WrittenTag.IsProper { name := "div", attrs, blanks } :=
    ⟨hnameChars, hletter, hattrs, hdistinct, hblanks⟩
  have h := parseFragment_element options (isProper_literals hpre) (List.forall_mem_nil _) hw hplain
  have htag : WrittenTag.source { name := "div", attrs, blanks } = tag := by
    simp [WrittenTag.source, tag, hopen]
  simp only [textSource_literals, htag, hlines, if_true] at h
  rwa [show textSource [] = [] from rfl, List.append_nil] at h

/-- A tag of three lines, with a line feed in a value and one before the closing bracket. -/
theorem parseFragment_elementLine_threeLines :
    (∀ c ∈ "x\n".toList, isPlain c = true) ∧
      (∀ a ∈ [WrittenAttr.mk [' '] ⟨"title", "a\nb"⟩, ⟨['\t'], ⟨"id", ""⟩⟩], a.IsProper) ∧
      ([WrittenAttr.mk [' '] ⟨"title", "a\nb"⟩, ⟨['\t'], ⟨"id", ""⟩⟩].map (·.attr.name)).Nodup ∧
      (∀ c ∈ ['\n'], isBlank c = true) ∧
      parseFragment "x\n<div title=\"a\nb\"\tid=\"\"\n>" { sourceLines := true } =
        .fragment [.text ⟨"x\n", some 1⟩,
          .element ⟨"div", Space.html.uri, [⟨"title", "a\nb"⟩, ⟨"id", ""⟩], some 4⟩ []] := by
  have hpre : ∀ c ∈ "x\n".toList, isPlain c = true := List.all_eq_true.1 (by decide)
  have hblanks : ∀ c ∈ ['\n'], isBlank c = true := List.all_eq_true.1 (by decide)
  have hattrs : ∀ a ∈ [WrittenAttr.mk [' '] ⟨"title", "a\nb"⟩, ⟨['\t'], ⟨"id", ""⟩⟩],
      a.IsProper := by
    decide
  exact ⟨hpre, hattrs, by decide, hblanks,
    @parseFragment_elementLine { sourceLines := true } rfl "x\n".toList hpre _ hattrs (by decide)
      ['\n'] hblanks⟩

/-- The tag begins on the first line of the source, and its element is placed on the second one. -/
theorem parseFragment_elementLine_ne : ∃ e : Element,
    parseFragment "<div\n>" { sourceLines := true } = .fragment [.element e []] ∧
    e.line ≠ some (1 + lineBreaks "".toList) :=
  ⟨⟨"div", Space.html.uri, [], some 2⟩, by decide +kernel, by decide⟩

end HtmlWalk
