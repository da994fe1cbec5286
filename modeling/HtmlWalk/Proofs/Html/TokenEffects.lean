import Mathlib.Data.Bool.Basic
import HtmlWalk.Html.Tokenizer

/-!
# What reading a character does

**Theorem (`Tokenizer.acts_accept`).** What is done to read a character that makes a run of its own
depends only on the work in hand: the place in the source, and the tag, comment or declaration under
construction. Nothing but this work changes then, except that tokens are handed over, all of them on
the line that has been reached, and that a character reference is begun at an ampersand.

So what is to be shown of all the ways to read a character is shown of effects. Only a character
that a longer run goes on with is read in another way (`Tokenizer.accept_of_joins`).

There is one lemma for each way to read a character. It says what is done by a tokenizer that has
done something before, because what is read in one way is often left to another.
-/

namespace HtmlWalk.Html

/-- The states of text. -/
def State.isText : State → Bool
  | .data | .raw _ | .plaintext => true
  | _ => false

namespace Tokenizer

/-! ## Effects -/

/-- The work in hand: the place in the source, and what is under construction there. -/
structure Work where
  state : State
  draft : Draft
  lastStart : String
  held : List Char
  comment : String
  declaration : Declaration

/-- The work that a tokenizer has in hand. -/
def work (t : Tokenizer) : Work :=
  ⟨t.state, t.draft, t.lastStart, t.held, t.comment, t.declaration⟩

/-- What is done to a tokenizer. -/
structure Effect where
  /-- The work in hand afterwards. -/
  work : Work
  /-- The tokens that are handed over, the last one first. -/
  tokens : List Token := []
  /-- Whether a character reference is begun. -/
  refers : Bool := false

/-- The tokenizer after an effect. -/
def Effect.apply (e : Effect) (t : Tokenizer) : Tokenizer :=
  { t with
    state := e.work.state
    draft := e.work.draft
    lastStart := e.work.lastStart
    held := e.work.held
    comment := e.work.comment
    declaration := e.work.declaration
    out := e.tokens.map (t.line, ·) ++ t.out
    reference := if e.refers then some .start else t.reference }

/-- The effect of one after another. -/
def Effect.after (e' e : Effect) : Effect :=
  ⟨e'.work, e'.tokens ++ e.tokens, e'.refers || e.refers⟩

theorem Effect.apply_after (e' e : Effect) (t : Tokenizer) :
    (e'.after e).apply t = e'.apply (e.apply t) := by
  unfold after apply
  cases e'.refers <;> simp

/-- What is done has an effect that depends only on the work in hand. A reference is begun only
where one may be. -/
def Acts (mayRefer : Prop) (f : Tokenizer → Tokenizer) : Prop :=
  ∀ w : Work, ∃ e : Effect, (e.refers = true → mayRefer) ∧
    ∀ t : Tokenizer, t.work = w → f t = e.apply t

theorem textChar_alone (t : Tokenizer) (c : Char) : t.textChar c true = t.emitChar c := rfl

namespace Acts

variable {mayRefer : Prop} {f g : Tokenizer → Tokenizer}

/-- Nothing is done. -/
protected theorem id (mayRefer : Prop) : Acts mayRefer fun t => t := by
  intro w
  refine ⟨{ work := w }, nofun, ?_⟩
  rintro t rfl
  rfl

theorem comp (hg : Acts mayRefer g) (hf : Acts mayRefer f) : Acts mayRefer fun t => g (f t) := by
  intro w
  obtain ⟨e, he, hfe⟩ := hf w
  obtain ⟨e', he', hge⟩ := hg e.work
  refine ⟨e'.after e, fun h => (Bool.or_eq_true_iff.1 h).elim he' he, fun t ht => ?_⟩
  dsimp only
  rw [hfe t ht, hge _ rfl, Effect.apply_after]

/-- What is done next may be looked up in the work in hand. -/
theorem look (hf : Acts mayRefer f) {g : Work → Tokenizer → Tokenizer}
    (hg : ∀ w, Acts mayRefer (g w)) : Acts mayRefer fun t => g (f t).work t := by
  intro w
  obtain ⟨e, -, hfe⟩ := hf w
  obtain ⟨e', he', hge⟩ := hg e.work w
  refine ⟨e', he', fun t ht => ?_⟩
  dsimp only
  rw [hfe t ht]
  exact hge t ht

/-- To know what is done, it is enough to know what is done in each state. -/
theorem of_state (h : ∀ s, Acts mayRefer fun t => g (t.goto s)) : Acts mayRefer g :=
  (Acts.id mayRefer).look (g := fun w t => g (t.goto w.state)) fun w => h w.state

theorem ite (hf : Acts mayRefer f) (b : Work → Bool) {g g' : Tokenizer → Tokenizer}
    (hg : Acts mayRefer g) (hg' : Acts mayRefer g') :
    Acts mayRefer fun t => if b (f t).work then g t else g' t := by
  refine hf.look (g := fun w t => if b w then g t else g' t) fun w => ?_
  split_ifs
  · exact hg
  · exact hg'

variable (h : Acts mayRefer f)
include h

/-- An effect that is told by the work in hand. -/
theorem change (e : Work → Effect) (he : ∀ w, (e w).refers = true → mayRefer) :
    Acts mayRefer fun t => (e (f t).work).apply (f t) := by
  refine comp (g := fun t => (e t.work).apply t) (fun w => ⟨e w, he w, ?_⟩) h
  rintro t rfl
  rfl

/-! ## Handing over tokens -/

theorem emit (token : Token) : Acts mayRefer fun t => (f t).emit token :=
  h.change (fun w => ⟨w, [token], false⟩) fun _ => nofun

theorem emitChar (c : Char) : Acts mayRefer fun t => (f t).emitChar c := h.emit _

theorem emitEach (cs : List Char) : Acts mayRefer fun t => (f t).emitEach cs := by
  induction cs generalizing f with
  | nil => exact h
  | cons c cs ih => exact ih (h.emitChar c)

theorem emitHeld : Acts mayRefer fun t => (f t).emitHeld :=
  h.change (fun w => ⟨{ w with held := [] }, [.chars w.held.reverse], false⟩)
    fun _ => nofun

theorem goto (s : State) : Acts mayRefer fun t => (f t).goto s :=
  h.change (fun w => { work := { w with state := s } }) fun _ => nofun

theorem hold (c : Char) : Acts mayRefer fun t => (f t).hold c :=
  h.change (fun w => { work := { w with held := c :: w.held } }) fun _ => nofun

theorem holdNothing : Acts mayRefer fun t => (f t).holdNothing :=
  h.change (fun w => { work := { w with held := [] } }) fun _ => nofun

theorem emitTag (selfClosing : Bool) : Acts mayRefer fun t => (f t).emitTag selfClosing := by
  let tag (w : Work) : Tag := ⟨w.draft.endAttr.name, w.draft.endAttr.attrs.reverse, selfClosing⟩
  have hend := h.change
    (fun w => ⟨{ w with state := .data, draft := {} }, [.endTag (tag w)], false⟩) fun _ => nofun
  have hstart := h.change
    (fun w => ⟨{ w with state := .data, draft := {}, lastStart := (tag w).name },
      [.startTag (tag w)], false⟩) fun _ => nofun
  exact h.ite (fun w => w.draft.endAttr.closing) hend hstart

theorem emitComment : Acts mayRefer fun t => (f t).emitComment :=
  h.change (fun w => ⟨{ w with state := .data, comment := "" }, [.comment w.comment], false⟩)
    fun _ => nofun

theorem emitDeclaration : Acts mayRefer fun t => (f t).emitDeclaration :=
  h.change
    (fun w => ⟨{ w with state := .data, declaration := {} }, [.declaration w.declaration], false⟩)
    fun _ => nofun

/-! ## Building tokens -/

theorem startTag (closing : Bool) (c : Char) : Acts mayRefer fun t => (f t).startTag closing c :=
  h.change (fun w => { work := { w with draft := { closing, name := String.singleton c } } })
    fun _ => nofun

theorem say (s : String) : Acts mayRefer fun t => (f t).say s :=
  h.change (fun w => { work := { w with comment := w.comment ++ s } }) fun _ => nofun

theorem declare (d : Declaration → Declaration) : Acts mayRefer fun t => (f t).declare d :=
  h.change (fun w => { work := { w with declaration := d w.declaration } }) fun _ => nofun

theorem declareMalformed : Acts mayRefer fun t => (f t).declareMalformed := h.declare _

theorem pushValue (cs : List Char) : Acts mayRefer fun t => (f t).pushValue cs :=
  h.change (fun w => { work :=
    { w with draft := { w.draft with attrValue := cs.foldl String.push w.draft.attrValue } } })
    fun _ => nofun

/-- A character reference is begun. -/
theorem refer (hrefer : mayRefer) : Acts mayRefer fun t => { f t with reference := some .start } :=
  h.change (fun w => ⟨w, [], true⟩) fun _ _ => hrefer

/-! ## Text -/

theorem readPlaintext (c : Char) : Acts mayRefer fun t => (f t).readPlaintext c true := by
  unfold Tokenizer.readPlaintext
  simp only [Bool.true_or, textChar_alone]
  split_ifs
  · exact h.emitChar _
  · exact h.emitChar c

section

variable {c : Char} (hc : c = '&' → mayRefer)
include hc

theorem readData : Acts mayRefer fun t => (f t).readData c true := by
  unfold Tokenizer.readData
  simp only [Bool.true_or, textChar_alone]
  split_ifs with hnull hmark hopen
  · exact h.emit _
  · exact h.refer (hc (eq_of_beq hmark))
  · exact h.goto _
  · exact h.emitChar c

theorem readRaw (kind : Raw) : Acts mayRefer fun t => (f t).readRaw kind c true := by
  unfold Tokenizer.readRaw
  simp only [Bool.true_or, textChar_alone]
  split_ifs with hnull hmark hopen hdouble
  · exact h.emitChar _
  · exact h.refer (hc (by simp_all))
  · exact (h.emitChar _).goto _
  · exact h.goto _
  · cases kind with
    | escaped e => exact (h.emitChar _).goto _
    | _ => exact h.emitChar c
  · cases kind <;> exact h.emitChar c

theorem readRawLessThan (kind : Raw) : Acts mayRefer fun t => (f t).readRawLessThan kind c := by
  have hagain : Acts mayRefer fun t => (((f t).emitChar '<').goto (.raw kind)).readRaw kind c true :=
    ((h.emitChar _).goto _).readRaw hc _
  unfold Tokenizer.readRawLessThan
  split
  · split_ifs
    · exact (h.holdNothing.emitChar _).goto _
    · exact (h.goto _).readRaw hc _
  · split_ifs
    · exact h.holdNothing.goto _
    · cases lowerLetter? c with
      | some l => exact (((h.holdNothing.hold _).emitChar _).emitChar _).goto _
      | none => exact hagain
  · split_ifs
    · exact h.holdNothing.goto _
    · exact ((h.emitChar _).emitChar _).goto _
    · exact hagain

theorem readRawEndTagOpen (kind : Raw) : Acts mayRefer fun t => (f t).readRawEndTagOpen kind c := by
  unfold Tokenizer.readRawEndTagOpen
  cases lowerLetter? c with
  | some l => exact ((h.startTag _ _).hold _).goto _
  | none => exact (((h.emitChar _).emitChar _).goto _).readRaw hc _

theorem readRawEndTagName (kind : Raw) : Acts mayRefer fun t => (f t).readRawEndTagName kind c := by
  unfold Tokenizer.readRawEndTagName
  let matching (w : Work) : Bool := w.draft.name == w.lastStart
  refine h.ite (fun w => matching w && isSpace c) (h.holdNothing.goto _) ?_
  refine h.ite (fun w => matching w && c == '/') (h.holdNothing.goto _) ?_
  refine h.ite (fun w => matching w && c == '>') (h.holdNothing.emitTag _) ?_
  cases lowerLetter? c with
  | some l =>
    exact h.change (fun w => { work := { w with
      held := c :: w.held, draft := { w.draft with name := w.draft.name.push l } } }) fun _ => nofun
  | none => exact ((((h.emitChar _).emitChar _).emitHeld).goto _).readRaw hc _

theorem readEscapeWord (matched unmatched otherwise : Escape) :
    Acts mayRefer fun t => (f t).readEscapeWord c matched unmatched otherwise := by
  unfold Tokenizer.readEscapeWord
  split_ifs
  · exact h.look (g := fun w t => ((f t).emitChar c).goto (.raw (.escaped
      (if w.held.reverse == "script".toList then matched else unmatched)))) fun w =>
        (h.emitChar _).goto _
  · cases lowerLetter? c with
    | some l => exact (h.hold _).emitChar _
    | none => exact (h.goto _).readRaw hc _

theorem readEscapeStart (e : Escape) : Acts mayRefer fun t => (f t).readEscapeStart e c := by
  unfold Tokenizer.readEscapeStart
  split
  · exact h.readEscapeWord hc _ _ _
  · split_ifs
    · exact (h.emitChar _).goto _
    · exact (h.goto _).readRaw hc _

theorem readEscapeStartDash : Acts mayRefer fun t => (f t).readEscapeStartDash c := by
  unfold Tokenizer.readEscapeStartDash
  split_ifs
  · exact (h.emitChar _).goto _
  · exact (h.goto _).readRaw hc _

end

theorem readEscapedDash (e : Escape) (two : Bool) (c : Char) :
    Acts mayRefer fun t => (f t).readEscapedDash e two c := by
  unfold Tokenizer.readEscapedDash
  split_ifs
  · exact (h.emitChar _).goto _
  · exact (h.emitChar _).goto _
  · exact h.goto _
  · exact (h.emitChar _).goto _
  · exact (h.emitChar _).goto _
  · exact (h.emitChar _).goto _

theorem readCdata (c : Char) : Acts mayRefer fun t => (f t).readCdata c := by
  unfold Tokenizer.readCdata
  split_ifs
  · exact h.goto _
  · exact h.emitHeld.emit _
  · exact h.hold _

theorem readCdataBracket (c : Char) : Acts mayRefer fun t => (f t).readCdataBracket c := by
  unfold Tokenizer.readCdataBracket
  split_ifs
  · exact h.goto _
  · exact ((h.hold _).goto _).readCdata _

theorem readCdataEnd (c : Char) : Acts mayRefer fun t => (f t).readCdataEnd c := by
  unfold Tokenizer.readCdataEnd
  split_ifs
  · exact h.hold _
  · exact h.emitHeld.goto _
  · exact (((h.hold _).hold _).goto _).readCdata _

/-! ## Comments -/

theorem readBogusComment (c : Char) : Acts mayRefer fun t => (f t).readBogusComment c := by
  unfold Tokenizer.readBogusComment
  split_ifs
  · exact h.emitComment
  · exact h.say _

theorem startBogusComment (c : Char) : Acts mayRefer fun t => (f t).startBogusComment c := by
  have hnext := h.change (fun w => ⟨{ w with state := .bogusComment, comment := "" }, [], false⟩)
    fun _ => nofun
  exact hnext.readBogusComment c

theorem readOnComment (dashes : String) (c : Char) :
    Acts mayRefer fun t => (f t).readOnComment dashes c :=
  (h.say _).goto _

theorem readComment (c : Char) : Acts mayRefer fun t => (f t).readComment c := by
  refine comp (g := (·.readComment c)) (of_state fun s => ?_) h
  have h := (Acts.id mayRefer).goto s
  unfold Tokenizer.readComment
  cases s with
  | commentStart | commentStartDash =>
    dsimp only [Tokenizer.goto]
    split_ifs
    · exact h.goto _
    · exact h.emitComment
    · exact h.readOnComment _ _
  | commentEnd =>
    dsimp only [Tokenizer.goto]
    split_ifs
    · exact h.emitComment
    · exact h.goto _
    · exact h.say _
    · exact h.readOnComment _ _
  | commentEndBang =>
    dsimp only [Tokenizer.goto]
    split_ifs
    · exact (h.say _).goto _
    · exact h.emitComment
    · exact h.readOnComment _ _
  | _ =>
    dsimp only [Tokenizer.goto]
    split_ifs
    · exact h.goto _
    · exact h.readOnComment _ _

/-! ## Tags -/

theorem readTagOpen {c : Char} (hc : c = '&' → mayRefer) :
    Acts mayRefer fun t => (f t).readTagOpen c := by
  unfold Tokenizer.readTagOpen
  split_ifs
  · exact h.goto _
  · exact h.goto _
  · exact h.startBogusComment _
  · cases lowerLetter? c with
    | some l => exact (h.startTag _ _).goto _
    | none => exact ((h.emitChar _).goto _).readData hc

theorem readEndTagOpen (c : Char) : Acts mayRefer fun t => (f t).readEndTagOpen c := by
  unfold Tokenizer.readEndTagOpen
  split_ifs
  · exact (h.emit _).goto _
  · cases lowerLetter? c with
    | some l => exact (h.startTag _ _).goto _
    | none => exact h.startBogusComment _

theorem startAttr (c : Char) : Acts mayRefer fun t => (f t).startAttr c :=
  h.change (fun w => { work :=
    { w with state := .attrName, draft := w.draft.startAttr (orReplacement c).toLower } })
    fun _ => nofun

theorem readBeforeAttrName (c : Char) : Acts mayRefer fun t => (f t).readBeforeAttrName c := by
  unfold Tokenizer.readBeforeAttrName
  split_ifs
  · exact h
  · exact h.goto _
  · exact h.emitTag _
  · exact h.startAttr _

theorem readTagName (c : Char) : Acts mayRefer fun t => (f t).readTagName c := by
  unfold Tokenizer.readTagName
  split_ifs
  · exact h.goto _
  · exact h.goto _
  · exact h.emitTag _
  · exact h.change (fun w => { work := { w with draft :=
      { w.draft with name := w.draft.name.push (orReplacement c).toLower } } }) fun _ => nofun

theorem readAttrName (c : Char) : Acts mayRefer fun t => (f t).readAttrName c := by
  unfold Tokenizer.readAttrName
  split_ifs
  · exact h.goto _
  · exact h.goto _
  · exact h.goto _
  · exact h.emitTag _
  · exact h.change (fun w => { work := { w with draft :=
      { w.draft with attrName := w.draft.attrName.push (orReplacement c).toLower } } })
      fun _ => nofun

theorem readAfterAttrName (c : Char) : Acts mayRefer fun t => (f t).readAfterAttrName c := by
  unfold Tokenizer.readAfterAttrName
  split_ifs
  · exact h
  · exact h.goto _
  · exact h.goto _
  · exact h.emitTag _
  · exact h.startAttr _

theorem readAttrValue (quote : Quote) {c : Char} (hc : c = '&' → mayRefer) :
    Acts mayRefer fun t => (f t).readAttrValue quote c := by
  unfold Tokenizer.readAttrValue
  cases quote.mark? with
  | some mark =>
    dsimp only
    split_ifs with hmark
    · exact h.refer (hc (eq_of_beq hmark))
    · exact h.goto _
    · exact h.pushValue _
  | none =>
    dsimp only
    split_ifs with hmark
    · exact h.refer (hc (eq_of_beq hmark))
    · exact h.goto _
    · exact h.emitTag _
    · exact h.pushValue _

theorem readAfterAttrValue (c : Char) : Acts mayRefer fun t => (f t).readAfterAttrValue c :=
  (h.goto _).readBeforeAttrName c

theorem readSelfClosing (c : Char) : Acts mayRefer fun t => (f t).readSelfClosing c := by
  unfold Tokenizer.readSelfClosing
  split_ifs
  · exact h.emitTag _
  · exact (h.goto _).readBeforeAttrName c

/-! ## Doctype declarations -/

theorem pushDoctypeName (c : Char) : Acts mayRefer fun t => (f t).pushDoctypeName c := h.declare _

theorem readBeforeDoctypeName (c : Char) :
    Acts mayRefer fun t => (f t).readBeforeDoctypeName c := by
  have hnext := h.declare fun _ => {}
  unfold Tokenizer.readBeforeDoctypeName
  dsimp only
  split_ifs
  · exact h
  · exact hnext.declareMalformed.emitDeclaration
  · exact (hnext.pushDoctypeName c).goto _

theorem readDoctypeName (c : Char) : Acts mayRefer fun t => (f t).readDoctypeName c := by
  unfold Tokenizer.readDoctypeName
  split_ifs
  · exact h.goto _
  · exact h.emitDeclaration
  · exact h.pushDoctypeName c

theorem spoilDeclaration : Acts mayRefer fun t => (f t).spoilDeclaration :=
  h.declareMalformed.goto _

theorem readAfterDoctypeName (c : Char) : Acts mayRefer fun t => (f t).readAfterDoctypeName c := by
  unfold Tokenizer.readAfterDoctypeName
  split_ifs
  · exact h
  · exact h.emitDeclaration
  · exact h.spoilDeclaration

theorem startIdentifier (id : Identifier) (mark : Char) :
    Acts mayRefer fun t => (f t).startIdentifier id mark := by
  cases id with
  | publicId => exact (h.declare _).goto _
  | systemId => exact (h.declare _).goto _

theorem pushIdentifier (id : Identifier) (c : Char) :
    Acts mayRefer fun t => (f t).pushIdentifier id c := by
  unfold Tokenizer.pushIdentifier
  cases id with
  | publicId => exact h.declare _
  | systemId => exact h.declare _

theorem readBeforeIdentifier (id : Identifier) (c : Char) :
    Acts mayRefer fun t => (f t).readBeforeIdentifier id c := by
  unfold Tokenizer.readBeforeIdentifier
  split_ifs
  · exact h.goto _
  · exact h.startIdentifier _ _
  · exact h.declareMalformed.emitDeclaration
  · exact h.spoilDeclaration

theorem readIdentifier (id : Identifier) (mark c : Char) :
    Acts mayRefer fun t => (f t).readIdentifier id mark c := by
  unfold Tokenizer.readIdentifier
  split_ifs
  · exact h.goto _
  · exact h.declareMalformed.emitDeclaration
  · exact h.pushIdentifier _ _

theorem readAfterPublicId (c : Char) : Acts mayRefer fun t => (f t).readAfterPublicId c := by
  unfold Tokenizer.readAfterPublicId
  split_ifs
  · exact h.goto _
  · exact h.emitDeclaration
  · exact h.startIdentifier _ _
  · exact h.spoilDeclaration

theorem readAfterSystemId (c : Char) : Acts mayRefer fun t => (f t).readAfterSystemId c := by
  unfold Tokenizer.readAfterSystemId
  split_ifs
  · exact h
  · exact h.emitDeclaration
  · exact h.goto _

theorem readBogusDoctype (c : Char) : Acts mayRefer fun t => (f t).readBogusDoctype c := by
  unfold Tokenizer.readBogusDoctype
  split_ifs
  · exact h.emitDeclaration
  · exact h

end Acts

/-! ## Characters of the source -/

/-- **A character that makes a run of its own** has an effect that depends only on the work in hand.
-/
theorem acts_accept {mayRefer : Prop} {c : Char} (hc : c = '&' → mayRefer) :
    Acts mayRefer (·.accept c true) := by
  refine .of_state fun s => ?_
  have h := (Acts.id mayRefer).goto s
  cases s with
  | data => exact h.readData hc
  | raw kind => exact h.readRaw hc kind
  | plaintext => exact h.readPlaintext c
  | tagOpen => exact h.readTagOpen hc
  | endTagOpen => exact h.readEndTagOpen c
  | tagName => exact h.readTagName c
  | rawLessThan kind => exact h.readRawLessThan hc kind
  | rawEndTagOpen kind => exact h.readRawEndTagOpen hc kind
  | rawEndTagName kind => exact h.readRawEndTagName hc kind
  | escapeStart e => exact h.readEscapeStart hc e
  | escapeStartDash => exact h.readEscapeStartDash hc
  | escapedDash e => exact h.readEscapedDash e false c
  | escapedDashDash e => exact h.readEscapedDash e true c
  | doubleEscapeEnd => exact h.readEscapeWord hc _ _ _
  | beforeAttrName => exact h.readBeforeAttrName c
  | attrName => exact h.readAttrName c
  | afterAttrName => exact h.readAfterAttrName c
  | beforeAttrValue => exact h
  | attrValue quote => exact h.readAttrValue quote hc
  | afterAttrValue => exact h.readAfterAttrValue c
  | selfClosing => exact h.readSelfClosing c
  | markup => exact h.startBogusComment c
  | bogusComment => exact h.readBogusComment c
  | commentStart | commentStartDash | comment | commentEndDash | commentEnd | commentEndBang =>
    exact h.readComment c
  | doctype => exact (h.goto _).readBeforeDoctypeName c
  | beforeDoctypeName => exact h.readBeforeDoctypeName c
  | doctypeName => exact h.readDoctypeName c
  | afterDoctypeName => exact h.readAfterDoctypeName c
  | afterKeyword id | beforeIdentifier id => exact h.readBeforeIdentifier id c
  | identifier id mark => exact h.readIdentifier id mark c
  | afterIdentifier id =>
    cases id with
    | publicId => exact h.readAfterPublicId c
    | systemId => exact h.readAfterSystemId c
  | betweenIdentifiers => exact h.readAfterPublicId c
  | bogusDoctype => exact h.readBogusDoctype c
  | cdata => exact h.readCdata c
  | cdataBracket => exact h.readCdataBracket c
  | cdataEnd => exact h.readCdataEnd c

/-- A character that a run can go on with. -/
theorem accept_of_joins {t : Tokenizer} {c : Char}
    (hstate : t.state.isText = true) (hc : t.state.joins c = true) :
    t.accept c true = t.emitChar c ∧ (t.accept c false = { t with run := c :: t.run } ∨
      t.run = [] ∧ t.accept c false = t.emitChar c) := by
  unfold accept
  cases h : t.state with
  | data => grind [State.joins, readData, textChar]
  | raw kind => cases kind <;> grind [State.joins, readRaw, textChar]
  | plaintext => grind [State.joins, readPlaintext, textChar]
  | _ => simp [h, State.isText] at hstate

/-- A character that ends every run makes one of its own. -/
theorem accept_of_not_joins {t : Tokenizer} {c : Char} (hreturn : c ≠ '\r')
    (h : t.state.isText = false ∨ t.state.joins c = false) :
    t.accept c false = t.accept c true := by
  unfold accept
  cases hstate : t.state with
  | data => grind [State.isText, State.joins, readData, textChar]
  | raw kind => cases kind <;> grind [State.isText, State.joins, readRaw, textChar]
  | plaintext => grind [State.isText, State.joins, readPlaintext, textChar]
  | afterIdentifier id => cases id <;> rfl
  | _ => rfl

/-- The end of the source in the middle of a token. -/
theorem acts_close (mayRefer : Prop) : Acts mayRefer close := by
  refine .of_state fun s => ?_
  have h := (Acts.id mayRefer).goto s
  have hcomment := h.change (fun w => { work := { w with comment := "" } }) fun _ => nofun
  cases s with
  | tagOpen => exact h.emitChar _
  | endTagOpen | rawEndTagOpen kind => exact h.emitEach _
  | rawLessThan kind =>
    rcases kind with _ | _ | _ | _ | _
    all_goals first | exact h | exact h.emitChar _
  | rawEndTagName kind => exact (h.emitEach _).emitHeld
  | markup => exact hcomment.emitComment
  | bogusComment | commentStart | commentStartDash | comment | commentEndDash | commentEnd
  | commentEndBang => exact h.emitComment
  | doctype | beforeDoctypeName => exact (h.declare fun _ => {}).declareMalformed.emitDeclaration
  | doctypeName | afterDoctypeName | afterKeyword id | beforeIdentifier id | identifier id mark
  | afterIdentifier id | betweenIdentifiers => exact h.declareMalformed.emitDeclaration
  | bogusDoctype => exact h.emitDeclaration
  | cdata => exact h.emitHeld
  | cdataBracket => exact (h.hold _).emitHeld
  | cdataEnd => exact ((h.hold _).hold _).emitHeld
  | _ => exact h

end Tokenizer

end HtmlWalk.Html
