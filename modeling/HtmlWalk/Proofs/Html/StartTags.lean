import HtmlWalk.Proofs.Html.PlainText

/-!
# Start tags

A start tag as it is written has attributes with white space before each of them, and white space
before its closing bracket. Values stand between double quotes.

**Theorem (`Session.Reads.startTag`).** A session that reads such a tag after some text hands over
the text and then the tag, on the line where the tag ends.

Nothing is handed over in the tag (`Tokenizer.InText.foldl_step_tag`). The invariant is the draft
that the attributes read so far amount to when the attribute under construction ends
(`Draft.endAttr`): an attribute in a tag ends only with the next one, or with the tag.
-/

namespace HtmlWalk.Html

/-! ## Written tags -/

/-- Whether a character can stand between the attributes of a tag. -/
def isBlank (c : Char) : Bool := isSpace c && c != '\r'

/-- Whether a character is part of the name of a tag or an attribute, just as it is written. -/
def isNameChar (c : Char) : Bool :=
  !isSpace c && !(['/', '>', '=', '\x00'].contains c) && c.toLower == c

/-- Whether a character stands for itself in an attribute value between double quotes. -/
def isValueChar (c : Char) : Bool := !(['"', '&', '\r', '\x00'].contains c)

/-- An attribute of a tag with the white space before it. -/
structure WrittenAttr where
  /-- The white space. -/
  blanks : List Char
  /-- The attribute. -/
  attr : Attribute

/-- The source of an attribute. -/
def WrittenAttr.source (a : WrittenAttr) : List Char :=
  a.blanks ++ a.attr.name.toList ++ '=' :: '"' :: a.attr.value.toList ++ ['"']

/-- Whether the source of an attribute is read as this attribute. -/
structure WrittenAttr.IsProper (a : WrittenAttr) : Prop where
  blanks_ne_nil : a.blanks ≠ []
  blanks : ∀ c ∈ a.blanks, isBlank c = true
  name_ne_empty : a.attr.name ≠ ""
  name : ∀ c ∈ a.attr.name.toList, isNameChar c = true
  value : ∀ c ∈ a.attr.value.toList, isValueChar c = true

instance (a : WrittenAttr) : Decidable a.IsProper :=
  decidable_of_iff (a.blanks ≠ [] ∧ a.blanks.all isBlank = true ∧ a.attr.name ≠ "" ∧
      a.attr.name.toList.all isNameChar = true ∧ a.attr.value.toList.all isValueChar = true)
    ⟨fun ⟨hne, hblanks, hname, hnames, hvalue⟩ => ⟨hne, List.all_eq_true.1 hblanks, hname,
      List.all_eq_true.1 hnames, List.all_eq_true.1 hvalue⟩,
    fun h => ⟨h.blanks_ne_nil, List.all_eq_true.2 h.blanks, h.name_ne_empty,
      List.all_eq_true.2 h.name, List.all_eq_true.2 h.value⟩⟩

/-- A start tag as it is written. -/
structure WrittenTag where
  /-- The name. -/
  name : String
  /-- The attributes. -/
  attrs : List WrittenAttr := []
  /-- The white space before the closing bracket. -/
  blanks : List Char := []

namespace WrittenTag

/-- The source of a tag. -/
def source (w : WrittenTag) : List Char :=
  '<' :: w.name.toList ++ w.attrs.flatMap WrittenAttr.source ++ w.blanks ++ ['>']

/-- The tag that is written. -/
def tag (w : WrittenTag) : Tag := { name := w.name, attrs := w.attrs.map (·.attr) }

/-- Whether the source of a tag is read as this tag. -/
structure IsProper (w : WrittenTag) : Prop where
  name : ∀ c ∈ w.name.toList, isNameChar c = true
  letter : w.name.toList.head?.any Char.isAlpha = true
  attrs : ∀ a ∈ w.attrs, a.IsProper
  distinct : (w.attrs.map (·.attr.name)).Nodup
  blanks : ∀ c ∈ w.blanks, isBlank c = true

end WrittenTag

/-! ## Characters of a tag -/

theorem of_isNameChar {c : Char} (hc : isNameChar c = true) :
    isSpace c = false ∧ c ≠ '/' ∧ c ≠ '>' ∧ c ≠ '=' ∧ c ≠ '\r' ∧
      (orReplacement c).toLower = c := by
  simp only [isNameChar, Bool.and_eq_true, Bool.not_eq_true', List.contains_eq_mem, List.mem_cons,
    List.not_mem_nil, or_false, decide_eq_false_iff_not, not_or, beq_iff_eq] at hc
  obtain ⟨⟨hspace, hslash, hclose, hequals, hnull⟩, hlower⟩ := hc
  refine ⟨hspace, hslash, hclose, hequals, ?_, ?_⟩
  · rintro rfl
    cases hspace
  · rwa [orReplacement, if_neg (by simpa using hnull)]

/-- Whether the tokenizer is between two attributes, or after the name of the tag. -/
def State.isBetween : State → Bool
  | tagName | beforeAttrName | afterAttrValue => true
  | _ => false

/-- The draft with an attribute under construction after those it had. -/
def Draft.writing (d : Draft) (attrName attrValue : String) : Draft :=
  { d.endAttr with attrName, attrValue }

theorem Draft.endAttr_writing {d : Draft} {name : String} (value : String) (hne : name ≠ "")
    (hnew : ∀ a ∈ d.endAttr.attrs, a.name ≠ name) : (d.writing name value).endAttr =
      { d.endAttr with attrs := ⟨name, value⟩ :: d.endAttr.attrs } := by
  obtain ⟨closing, tagName, attrs, hd⟩ :
      ∃ closing tagName attrs, d.endAttr = ⟨closing, tagName, attrs, "", ""⟩ := ⟨_, _, _, rfl⟩
  rw [hd] at hnew
  have hknown : (name.isEmpty || attrs.any (·.name == name)) = false := by
    rw [Bool.or_eq_false_iff]
    exact ⟨by simpa using hne, by simpa using hnew⟩
  rw [writing, hd]
  unfold endAttr
  simp [hknown]

namespace Tokenizer

/-- The tokenizer somewhere in a tag. -/
def inTag (t : Tokenizer) (line : Nat) (state : State) (draft : Draft) : Tokenizer :=
  { t with line, state, draft }

variable {t : Tokenizer} {state : State}

/-- Outside of text a character is taken at once, but for three places where it is looked at. -/
theorem InText.step_inTag (h : t.InText) (hrun : t.run = []) (foreign : Bool) (line : Nat)
    (hstate : state ≠ .markup ∧ state ≠ .afterDoctypeName ∧ state ≠ .beforeAttrValue)
    (draft : Draft) {c : Char} (hc : c ≠ '\r') : (t.inTag line state draft).step foreign c =
      (t.inTag (line + lineBreaks [c]) state draft).accept c t.exact := by
  have hstep : (t.inTag line state draft).step foreign c = (t.inTag line state draft).take c := by
    unfold step
    split
    · next hr => exact absurd (hr.symm.trans h.reference) (Option.some_ne_none _)
    · next hs => exact absurd hs hstate.1
    · next hs => exact absurd hs hstate.2.1
    · next hs => exact absurd hs hstate.2.2
    · rfl
  rw [hstep]
  obtain ⟨exact, _, _, afterReturn, alone, run⟩ := t
  obtain ⟨rfl, rfl, rfl, rfl, rfl, rfl⟩ := h
  cases hrun
  by_cases hbreak : c = '\n'
  · subst hbreak
    simp [take, flush, lineBreaks, inTag]
  · simp [take, flush, lineBreaks, inTag, hbreak, beq_eq_false_iff_ne.2 hc]

theorem push_append_ofList (x : String) (c : Char) (cs : List Char) :
    x.push c ++ String.ofList cs = x ++ String.ofList (c :: cs) := by
  apply String.toList_inj.1
  simp

/-- Characters that all go to one part of the tag. -/
theorem foldl_step_inTag (foreign : Bool) (build : String → Draft) {P : Char → Bool}
    (hstep : ∀ line x {c : Char}, P c = true → (t.inTag line state (build x)).step foreign c =
      t.inTag (line + lineBreaks [c]) state (build (x.push c)))
    {cs : List Char} (hcs : ∀ c ∈ cs, P c = true) (line : Nat) (x : String) :
    cs.foldl (·.step foreign ·) (t.inTag line state (build x)) =
      t.inTag (line + lineBreaks cs) state (build (x ++ String.ofList cs)) := by
  induction cs generalizing line x with
  | nil => rw [String.ofList_nil, String.append_empty]; rfl
  | cons c cs ih =>
    obtain ⟨hc, hcs⟩ := List.forall_mem_cons.1 hcs
    rw [List.foldl_cons, hstep line x hc, ih hcs, push_append_ofList, lineBreaks_cons c cs,
      Nat.add_assoc]

namespace InText

variable (h : t.InText) (hrun : t.run = []) (foreign : Bool)
include h hrun

/-- A character of white space ends what it follows. -/
theorem step_blank (hstate : state.isBetween = true) (line : Nat) (draft : Draft) {c : Char}
    (hc : isBlank c = true) : (t.inTag line state draft).step foreign c =
      t.inTag (line + lineBreaks [c]) .beforeAttrName draft := by
  rw [isBlank, Bool.and_eq_true, bne_iff_ne] at hc
  have hplace : state ≠ .markup ∧ state ≠ .afterDoctypeName ∧ state ≠ .beforeAttrValue := by
    refine ⟨?_, ?_, ?_⟩ <;> rintro rfl <;> cases hstate
  rw [h.step_inTag hrun foreign line hplace draft hc.2]
  cases state with
  | tagName | beforeAttrName | afterAttrValue =>
    simp [accept, inTag, readTagName, readBeforeAttrName, readAfterAttrValue, hc.1, goto]
  | _ => cases hstate

/-- White space. -/
theorem foldl_step_blanks (hstate : state.isBetween = true) (line : Nat) (draft : Draft)
    {cs : List Char} (hcs : ∀ c ∈ cs, isBlank c = true) :
    cs.foldl (·.step foreign ·) (t.inTag line state draft) =
      t.inTag (line + lineBreaks cs) (if cs = [] then state else .beforeAttrName) draft := by
  cases cs with
  | nil => rfl
  | cons c cs =>
    obtain ⟨hc, hcs⟩ := List.forall_mem_cons.1 hcs
    rw [List.foldl_cons, h.step_blank hrun foreign hstate line draft hc,
      if_neg (List.cons_ne_nil c cs), lineBreaks_cons c cs, ← Nat.add_assoc]
    exact foldl_step_inTag foreign (fun _ => draft)
      (fun line _ _ hc => h.step_blank hrun foreign rfl line draft hc) hcs _ ""

/-- A character of the name of the tag. -/
theorem step_tagName (line : Nat) (draft : Draft) {c : Char} (hc : isNameChar c = true) :
    (t.inTag line .tagName draft).step foreign c =
      t.inTag (line + lineBreaks [c]) .tagName { draft with name := draft.name.push c } := by
  obtain ⟨hspace, hslash, hclose, -, hreturn, hlower⟩ := of_isNameChar hc
  rw [h.step_inTag hrun foreign line (by decide) draft hreturn]
  simp [accept, inTag, readTagName, hspace, hslash, hclose, hlower]

/-- A character of the name of an attribute. -/
theorem step_attrName (line : Nat) (draft : Draft) {c : Char} (hc : isNameChar c = true) :
    (t.inTag line .attrName draft).step foreign c = t.inTag (line + lineBreaks [c]) .attrName
      { draft with attrName := draft.attrName.push c } := by
  obtain ⟨hspace, hslash, hclose, hequals, hreturn, hlower⟩ := of_isNameChar hc
  rw [h.step_inTag hrun foreign line (by decide) draft hreturn]
  simp [accept, inTag, readAttrName, hspace, hslash, hclose, hequals, hlower]

/-- The first character of the name of an attribute. -/
theorem step_beforeAttrName (line : Nat) (draft : Draft) {c : Char} (hc : isNameChar c = true) :
    (t.inTag line .beforeAttrName draft).step foreign c =
      t.inTag (line + lineBreaks [c]) .attrName (draft.startAttr c) := by
  obtain ⟨hspace, hslash, hclose, -, hreturn, hlower⟩ := of_isNameChar hc
  rw [h.step_inTag hrun foreign line (by decide) draft hreturn]
  simp [accept, inTag, readBeforeAttrName, startAttr, hspace, hslash, hclose, hlower]

/-- What stands between the name of an attribute and its value. -/
theorem foldl_step_equals (line : Nat) (draft : Draft) :
    ['=', '"'].foldl (·.step foreign ·) (t.inTag line .attrName draft) =
      t.inTag line (.attrValue .double) draft := by
  rw [List.foldl_cons, h.step_inTag hrun foreign line (by decide) draft (by decide)]
  simp [step, accept, inTag, readAttrName, isSpace, goto, readBeforeAttrValue, h.reference,
    lineBreaks]

/-- A character of the value of an attribute. -/
theorem step_attrValue (line : Nat) (draft : Draft) {c : Char} (hc : isValueChar c = true) :
    (t.inTag line (.attrValue .double) draft).step foreign c =
      t.inTag (line + lineBreaks [c]) (.attrValue .double)
        { draft with attrValue := draft.attrValue.push c } := by
  simp only [isValueChar, Bool.not_eq_true', List.contains_eq_mem, List.mem_cons, List.not_mem_nil,
    or_false, decide_eq_false_iff_not, not_or] at hc
  obtain ⟨hquote, hamp, hreturn, hnull⟩ := hc
  rw [h.step_inTag hrun foreign line (by decide) draft hreturn]
  simp [accept, inTag, readAttrValue, Quote.mark?, pushValue, orReplacement, hquote, hamp, hnull]

/-- The end of the value of an attribute. -/
theorem step_quote (line : Nat) (draft : Draft) :
    (t.inTag line (.attrValue .double) draft).step foreign '"' =
      t.inTag line .afterAttrValue draft := by
  rw [h.step_inTag hrun foreign line (by decide) draft (by decide)]
  simp [accept, inTag, readAttrValue, Quote.mark?, goto, lineBreaks]

/-- **The name of an attribute is read.** -/
theorem foldl_step_attrName (line : Nat) (draft : Draft) {name : String} (hne : name ≠ "")
    (hname : ∀ c ∈ name.toList, isNameChar c = true) :
    name.toList.foldl (·.step foreign ·) (t.inTag line .beforeAttrName draft) =
      t.inTag (line + lineBreaks name.toList) .attrName (draft.writing name "") := by
  obtain ⟨c, cs, hcs⟩ : ∃ c cs, name.toList = c :: cs :=
    List.exists_cons_of_ne_nil fun hnil => hne (String.toList_eq_nil_iff.1 hnil)
  rw [hcs, List.forall_mem_cons] at hname
  have hwhole : name = String.singleton c ++ String.ofList cs := by
    apply String.toList_inj.1
    simp [hcs]
  rw [hcs, List.foldl_cons, h.step_beforeAttrName hrun foreign line draft hname.1,
    lineBreaks_cons c cs, ← Nat.add_assoc, hwhole]
  exact foldl_step_inTag foreign (fun x => draft.writing x "")
    (fun line x _ hc => h.step_attrName hrun foreign line _ hc) hname.2 _ _

/-- **The value of an attribute is read.** -/
theorem foldl_step_attrValue (line : Nat) (draft : Draft) (name : String) {value : String}
    (hvalue : ∀ c ∈ value.toList, isValueChar c = true) :
    value.toList.foldl (·.step foreign ·)
        (t.inTag line (.attrValue .double) (draft.writing name "")) =
      t.inTag (line + lineBreaks value.toList) (.attrValue .double) (draft.writing name value) := by
  have hvalues := foldl_step_inTag foreign (draft.writing name)
    (fun line x _ hc => h.step_attrValue hrun foreign line _ hc) hvalue line ""
  rwa [String.empty_append, String.ofList_toList] at hvalues

/-- **An attribute is read.** -/
theorem foldl_step_attr (hstate : state.isBetween = true) (line : Nat) (draft : Draft)
    {a : WrittenAttr} (ha : a.IsProper) :
    a.source.foldl (·.step foreign ·) (t.inTag line state draft) =
      t.inTag (line + lineBreaks a.source) .afterAttrValue
        (draft.writing a.attr.name a.attr.value) := by
  have hsource : a.source =
      a.blanks ++ a.attr.name.toList ++ ['=', '"'] ++ a.attr.value.toList ++ ['"'] := by
    simp [WrittenAttr.source]
  have hline : line + lineBreaks a.source = line + lineBreaks a.blanks +
      lineBreaks a.attr.name.toList + lineBreaks a.attr.value.toList := by
    simp [hsource, lineBreaks]
    omega
  rw [hline, hsource, List.foldl_append, List.foldl_append, List.foldl_append, List.foldl_append,
    h.foldl_step_blanks hrun foreign hstate line draft ha.blanks, if_neg ha.blanks_ne_nil,
    h.foldl_step_attrName hrun foreign _ draft ha.name_ne_empty ha.name,
    h.foldl_step_equals hrun foreign, h.foldl_step_attrValue hrun foreign _ draft _ ha.value]
  exact h.step_quote hrun foreign _ _

/-- **The attributes of a tag are read.** -/
theorem foldl_step_attrs {as : List WrittenAttr} (has : ∀ a ∈ as, a.IsProper)
    (hdistinct : (as.map (·.attr.name)).Nodup) (hstate : state.isBetween = true) (line : Nat)
    {draft : Draft} (hnew : ∀ a ∈ as, ∀ b ∈ draft.endAttr.attrs, b.name ≠ a.attr.name) :
    ∃ (state' : State) (draft' : Draft), state'.isBetween = true ∧
      draft'.endAttr = { draft.endAttr with
        attrs := (as.map (·.attr)).reverse ++ draft.endAttr.attrs } ∧
      (as.flatMap WrittenAttr.source).foldl (·.step foreign ·) (t.inTag line state draft) =
        t.inTag (line + lineBreaks (as.flatMap WrittenAttr.source)) state' draft' := by
  induction as generalizing state line draft with
  | nil => exact ⟨state, draft, hstate, rfl, rfl⟩
  | cons a as ih =>
    obtain ⟨ha, has⟩ := List.forall_mem_cons.1 has
    obtain ⟨hnewA, hnewAs⟩ := List.forall_mem_cons.1 hnew
    rw [List.map_cons, List.nodup_cons] at hdistinct
    have hend := Draft.endAttr_writing a.attr.value ha.name_ne_empty hnewA
    have hnew' : ∀ a' ∈ as, ∀ b ∈ (draft.writing a.attr.name a.attr.value).endAttr.attrs,
        b.name ≠ a'.attr.name := by
      intro a' ha' b hb
      rw [hend] at hb
      rcases List.mem_cons.1 hb with rfl | hb
      · intro hsame
        exact hdistinct.1 (List.mem_map.2 ⟨a', ha', hsame.symm⟩)
      · exact hnewAs a' ha' b hb
    have hafter : State.afterAttrValue.isBetween = true := rfl
    obtain ⟨state', draft', hstate', hdraft', hrest⟩ :=
      ih has hdistinct.2 hafter (line + lineBreaks a.source) hnew'
    refine ⟨state', draft', hstate', ?_, ?_⟩
    · rw [hdraft', hend]
      simp
    · rw [List.flatMap_cons, List.foldl_append, h.foldl_step_attr hrun foreign hstate line draft ha,
        hrest, lineBreaks_append, Nat.add_assoc]

/-- The first letter of a tag. -/
theorem step_tagOpen (line : Nat) (draft : Draft) {c : Char} (hc : isNameChar c = true)
    (hletter : c.isAlpha = true) : (t.inTag line .tagOpen draft).step foreign c =
      t.inTag (line + lineBreaks [c]) .tagName { name := String.singleton c } := by
  obtain ⟨-, hslash, -, -, hreturn, -⟩ := of_isNameChar hc
  have hmark : c ≠ '!' := by rintro rfl; cases hletter
  have hask : c ≠ '?' := by rintro rfl; cases hletter
  have hlower : c.toLower = c := by
    rw [isNameChar, Bool.and_eq_true, beq_iff_eq] at hc
    exact hc.2
  rw [h.step_inTag hrun foreign line (by decide) draft hreturn]
  simp [accept, inTag, readTagOpen, lowerLetter?, startTag, goto, hslash, hmark, hask, hletter,
    hlower]

/-- The end of a tag. -/
theorem step_close (hstate : state.isBetween = true) (line : Nat) {draft : Draft} {name : String}
    {attrs : List Attribute} (hdraft : draft.endAttr = { name, attrs }) :
    (t.inTag line state draft).step foreign '>' =
      { t with
        line
        lastStart := name
        draft := {}
        out := [(line, .startTag { name, attrs := attrs.reverse })] } := by
  have hplace : state ≠ .markup ∧ state ≠ .afterDoctypeName ∧ state ≠ .beforeAttrValue := by
    refine ⟨?_, ?_, ?_⟩ <;> rintro rfl <;> cases hstate
  have hclosing : draft.closing = false := congrArg Draft.closing hdraft
  have hemit : ∀ state, (t.inTag line state draft).emitTag false = { t with
      line, lastStart := name, draft := {}
      out := [(line, .startTag { name, attrs := attrs.reverse })] } := by
    intro state
    simp [emitTag, hdraft, inTag, emit, h.out, ← h.state]
  rw [h.step_inTag hrun foreign line hplace draft (by decide)]
  cases state with
  | tagName | beforeAttrName => exact hemit _
  | afterAttrValue => exact hemit .beforeAttrName
  | _ => cases hstate

/-- **A tag is read**, but for its closing bracket. -/
theorem foldl_step_tag {w : WrittenTag} (hw : w.IsProper) (line : Nat) (draft : Draft) :
    ∃ (state : State) (draft' : Draft), state.isBetween = true ∧
      draft'.endAttr = { name := w.name, attrs := (w.attrs.map (·.attr)).reverse } ∧
      (w.name.toList ++ w.attrs.flatMap WrittenAttr.source ++ w.blanks).foldl (·.step foreign ·)
          (t.inTag line .tagOpen draft) =
        t.inTag (line + lineBreaks w.source) state draft' := by
  obtain ⟨c, cs, hcs⟩ : ∃ c cs, w.name.toList = c :: cs := by
    have hletter := hw.letter
    cases hname : w.name.toList with
    | nil =>
      rw [hname] at hletter
      cases hletter
    | cons c cs => exact ⟨c, cs, rfl⟩
  have hname := hw.name
  have hletter := hw.letter
  rw [hcs, List.forall_mem_cons] at hname
  rw [hcs] at hletter
  have hwhole : String.singleton c ++ String.ofList cs = w.name := by
    apply String.toList_inj.1
    simp [hcs]
  -- The name.
  have hnames := fun line => foldl_step_inTag foreign
    (fun x : String => ({ name := x } : Draft))
    (fun line x _ hc => h.step_tagName hrun foreign line _ hc) hname.2 line (String.singleton c)
  rw [hwhole] at hnames
  -- The attributes.
  have hafter : State.tagName.isBetween = true := rfl
  have hnew : ∀ a ∈ w.attrs, ∀ b ∈ ({ name := w.name } : Draft).endAttr.attrs,
      b.name ≠ a.attr.name := fun _ _ _ => nofun
  obtain ⟨state, draft', hstate, hdraft', hattrs⟩ := h.foldl_step_attrs hrun foreign hw.attrs
    hw.distinct hafter (line + lineBreaks w.name.toList) hnew
  refine ⟨if w.blanks = [] then state else .beforeAttrName, draft', ?_, ?_, ?_⟩
  · split
    · exact hstate
    · rfl
  · rw [hdraft']
    simp [Draft.endAttr]
  · have hline : line + lineBreaks w.source = line + lineBreaks w.name.toList +
        lineBreaks (w.attrs.flatMap WrittenAttr.source) + lineBreaks w.blanks := by
      simp [WrittenTag.source, lineBreaks]
      omega
    have hstart : w.name.toList.foldl (·.step foreign ·) (t.inTag line .tagOpen draft) =
        t.inTag (line + lineBreaks w.name.toList) .tagName { name := w.name } := by
      rw [hcs, List.foldl_cons, h.step_tagOpen hrun foreign line draft hname.1 hletter, hnames,
        lineBreaks_cons c cs, Nat.add_assoc]
    rw [List.foldl_append, List.foldl_append, hstart, hattrs,
      h.foldl_step_blanks hrun foreign hstate _ _ hw.blanks, hline]

end InText

end Tokenizer

/-! ## Sessions -/

namespace Session

/-- **A tag after some text.** The text has become tokens, and the tag is handed over on the line
where it ends. -/
theorem Reads.startTag {t : Tokenizer} {b : Builder} {id : NodeId} {line : Nat} {text : List Char}
    {start : Option Nat} {s : Session} (hb : b.TakesText id) (ht : t.InText)
    (h : Reads t b id line text start s) {w : WrittenTag} (hw : w.IsProper) :
    ∃ (chunks : List Chunk) (ok : Bool), written chunks = text ∧ startLine? chunks = start ∧
      w.source.foldl read s = token
        ⟨{ t with line := line + lineBreaks w.source, run := [], lastStart := w.name, draft := {} },
          .building (b.wrote ok (writes id chunks)), false⟩
        (line + lineBreaks w.source) (.startTag w.tag) := by
  obtain ⟨chunks, ok, rfl, rfl, hbracket⟩ := h.bracket hb ht
  set stage := Stage.building (b.wrote ok (writes id chunks)) with hstage
  refine ⟨chunks, ok, rfl, rfl, ?_⟩
  have hrest : Tokenizer.InText { t with line, run := [] } := { ht with }
  obtain ⟨state, draft, hstate, hdraft, htag⟩ :=
    hrest.foldl_step_tag rfl stage.inForeign hw line t.draft
  have hopen : s.read '<' =
      ⟨Tokenizer.inTag { t with line, run := [] } line .tagOpen t.draft, stage, false⟩ := hbracket
  have hsilent := foldl_read_of_out stage ((congrArg Tokenizer.out htag).trans ht.out)
  rw [htag] at hsilent
  have hclose := hrest.step_close rfl stage.inForeign hstate (line + lineBreaks w.source) hdraft
  rw [List.reverse_reverse] at hclose
  have hfold : w.source.foldl read s =
      ((w.name.toList ++ w.attrs.flatMap WrittenAttr.source ++ w.blanks).foldl read
        (s.read '<')).read '>' := by
    simp [WrittenTag.source]
  rw [hfold, hopen, hsilent, read_of_not_fresh rfl, hclose, deliver_eq]
  dsimp only [List.foldr_cons, List.foldr_nil]
  rw [← ht.out]
  rfl

end Session

end HtmlWalk.Html
