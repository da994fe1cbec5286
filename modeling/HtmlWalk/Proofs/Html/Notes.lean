import Mathlib.Data.List.Basic
import HtmlWalk.Html.Builder

/-!
# Edits that the tree builder leaves to others

Some edits are notes about the source and the document as a whole: the line that has been read, the
layout mode, the doctype. All others are about nodes.

**Theorem (`Builder.notes_piece`).** The tree builder makes no notes, whatever piece of a token it
deals with.

There is one lemma for each rule. They rewrite the notes after the rule into those before it, so
that a rule made of others is done once it is unfolded.
-/

namespace HtmlWalk.Html

/-- Whether an edit is a note about the source or the document as a whole. -/
@[simp]
def Edit.isNote : Edit → Bool
  | line _ | mode _ | doctype _ => true
  | element .. | comment _ | instruction .. | append .. | insertBefore .. | foster .. | addAttrs ..
  | detach _ | moveChildren .. => false

/-- The notes among some edits. -/
def notes (es : Array Edit) : List Edit := es.toList.filter Edit.isNote

@[simp] theorem notes_push (es : Array Edit) (e : Edit) :
    notes (es.push e) = if e.isNote then notes es ++ [e] else notes es := by
  simp only [notes, Array.toList_push, List.filter_append, List.filter_cons, List.filter_nil]
  split <;> simp

namespace Outcome

/-- The edits made so far. -/
def edits : Outcome → Array Edit
  | done b | signal _ b | again b => b.edits

@[simp] theorem edits_done (b : Builder) : (done b).edits = b.edits := rfl

@[simp] theorem edits_signal (s : Signal) (b : Builder) : (signal s b).edits = b.edits := rfl

@[simp] theorem edits_again (b : Builder) : (again b).edits = b.edits := rfl

theorem edits_map {f : Builder → Builder} (hf : ∀ b, (f b).edits = b.edits) (o : Outcome) :
    (o.map f).edits = o.edits := by
  cases o <;> exact hf _

end Outcome

@[simp] theorem Outcome.notes_ite (c : Prop) [Decidable c] (o₁ o₂ : Outcome) :
    notes (if c then o₁ else o₂).edits = if c then notes o₁.edits else notes o₂.edits := by
  split <;> rfl

@[simp] theorem Builder.notes_ite (c : Prop) [Decidable c] (b₁ b₂ : Builder) :
    notes (if c then b₁ else b₂).edits = if c then notes b₁.edits else notes b₂.edits := by
  split <;> rfl

namespace Builder

variable (b : Builder)

/-! ## The state -/

@[simp] theorem edits_pop : b.pop.edits = b.edits := rfl

@[simp] theorem edits_popThrough (test : Open → Bool) : (b.popThrough test).edits = b.edits := rfl

@[simp] theorem edits_popThroughTag (tag : String) : (b.popThroughTag tag).edits = b.edits := rfl

@[simp] theorem edits_popTo (test : Open → Bool) : (b.popTo test).edits = b.edits := rfl

@[simp] theorem edits_popImplied (test : Name → Bool) : (b.popImplied test).edits = b.edits := rfl

@[simp] theorem edits_popImpliedExcept (tag : String) :
    (b.popImpliedExcept tag).edits = b.edits := rfl

@[simp] theorem edits_forget (id : NodeId) : (b.forget id).edits = b.edits := rfl

@[simp] theorem edits_map_forget (o : Outcome) (id : NodeId) :
    (o.map (·.forget id)).edits = o.edits :=
  o.edits_map fun b => b.edits_forget id

@[simp] theorem edits_goto (mode : Insertion) : (b.goto mode).edits = b.edits := rfl

@[simp] theorem edits_noFrameset : b.noFrameset.edits = b.edits := rfl

@[simp] theorem edits_noFramesetAfter (run : List Char) :
    (b.noFramesetAfter run).edits = b.edits := by
  unfold noFramesetAfter
  split <;> rfl

@[simp] theorem notes_emit (e : Edit) :
    notes (b.emit e).edits = if e.isNote then notes b.edits ++ [e] else notes b.edits :=
  notes_push b.edits e

@[simp] theorem notes_putIn (o : Open) (item : Item) :
    notes (b.putIn o item).edits = notes b.edits := by
  unfold putIn
  split <;> simp

@[simp] theorem notes_put (item : Item) : notes (b.put item).edits = notes b.edits := by
  unfold put
  simp

@[simp] theorem notes_insertClosed (name : Name) (attrs : List Attribute) :
    notes (b.insertClosed name attrs).edits = notes b.edits := by
  unfold insertClosed
  simp

@[simp] theorem notes_insertOpen (name : Name) (attrs : List Attribute) :
    notes (b.insertOpen name attrs).edits = notes b.edits := by
  unfold insertOpen
  simp

@[simp] theorem notes_insert (tag : Tag) : notes (b.insert tag).edits = notes b.edits := by
  unfold insert
  simp

@[simp] theorem notes_insertVoid (tag : Tag) : notes (b.insertVoid tag).edits = notes b.edits := by
  unfold insertVoid
  simp

@[simp] theorem notes_insertImplied (tag : String) :
    notes (b.insertImplied tag).edits = notes b.edits := by
  unfold insertImplied
  simp

@[simp] theorem notes_putText (run : List Char) : notes (b.putText run).edits = notes b.edits := by
  unfold putText
  simp

@[simp] theorem notes_putComment (data : String) :
    notes (b.putComment data).edits = notes b.edits := by
  unfold putComment
  simp

@[simp] theorem notes_putCommentAt (place : Place) (data : String) :
    notes (b.putCommentAt place data).edits = notes b.edits := by
  unfold putCommentAt
  simp

@[simp] theorem notes_insertRaw (tag : Tag) (kind : Raw) :
    notes (b.insertRaw tag kind).edits = notes b.edits := by
  unfold insertRaw
  simp

/-! ## Formatting elements -/

@[simp] theorem edits_mark : b.mark.edits = b.edits := rfl

@[simp] theorem edits_clearToMarker : b.clearToMarker.edits = b.edits := rfl

@[simp] theorem edits_unformat (id : NodeId) : (b.unformat id).edits = b.edits := rfl

@[simp] theorem notes_reopen (entry : Format) : notes (reopen entry b).edits = notes b.edits := by
  cases entry with
  | marker => rfl
  | element id tag =>
    unfold reopen
    simp

@[simp] theorem notes_reopenFormatting : notes b.reopenFormatting.edits = notes b.edits := by
  unfold reopenFormatting
  dsimp only
  generalize b.formatting.takeWhile (!b.isSettled ·) = lost
  induction lost with
  | nil => rfl
  | cons entry lost ih => rw [List.foldr_cons, notes_reopen, ih]

@[simp] theorem notes_insertFormatting (tag : Tag) :
    notes (b.insertFormatting tag).edits = notes b.edits := by
  unfold insertFormatting
  simp

@[simp] theorem edits_endPlain (tag : String) : (b.endPlain tag).edits = b.edits := by
  unfold endPlain
  split <;> simp

@[simp] theorem notes_adoptionStep (block : NodeId) (a : Adoption) (o : Open) (count : Nat) :
    notes (a.step block o count).builder.edits = notes a.builder.edits := by
  unfold Adoption.step
  dsimp only
  split
  · rfl
  · split <;> simp

@[simp] theorem notes_adoptionSteps (block : NodeId) (a : Adoption) (count : Nat) (os : List Open) :
    notes (Adoption.steps block a count os).builder.edits = notes a.builder.edits := by
  induction os generalizing a count with
  | nil => rfl
  | cons o os ih => rw [Adoption.steps, ih, notes_adoptionStep]

@[simp] theorem notes_moveOut (old : Open) (tag : Tag) (inner : List Open) (block : Open)
    (between below : List Open) :
    notes (b.moveOut old tag inner block between below).edits = notes b.edits := by
  unfold moveOut
  simp

theorem notes_adoptOnce (subject : String) :
    notes ((b.adoptOnce subject).elim id id).edits = notes b.edits := by
  unfold adoptOnce
  split
  · dsimp only
    split
    · simp
    · split
      · simp
      · split <;> simp
  · simp

@[simp] theorem notes_adoptTimes (subject : String) (n : Nat) :
    notes (adoptTimes subject n b).edits = notes b.edits := by
  induction n generalizing b with
  | zero => rfl
  | succ n ih =>
    have honce := b.notes_adoptOnce subject
    unfold adoptTimes
    split
    · next b' h =>
      rw [h] at honce
      exact honce
    · next b' h =>
      rw [h] at honce
      rw [ih, ← honce]
      rfl

@[simp] theorem notes_adopt (subject : String) :
    notes (b.adopt subject).edits = notes b.edits := by
  unfold adopt
  split <;> simp

/-! ## Before the body -/

@[simp] theorem notes_startHtml (tag : Tag) : notes (b.startHtml tag).edits = notes b.edits := by
  unfold startHtml
  split <;> simp

@[simp] theorem notes_openTemplate (tag : Tag) :
    notes (b.openTemplate tag).edits = notes b.edits := by
  unfold openTemplate
  simp

@[simp] theorem edits_endTemplate : b.endTemplate.edits = b.edits := by
  unfold endTemplate
  split <;> rfl

@[simp] theorem edits_eofInTemplate : b.eofInTemplate.edits = b.edits := by
  unfold eofInTemplate
  split <;> rfl

@[simp] theorem notes_startInHead (tag : Tag) :
    notes (b.startInHead tag).edits = notes b.edits := by
  unfold startInHead
  split <;> simp

@[simp] theorem notes_inHead (p : Piece) : notes (b.inHead p).edits = notes b.edits := by
  unfold inHead
  split
  · simp
  · simp
  · simp
  · split <;> simp
  all_goals simp

@[simp] theorem notes_openHead (tag : Tag) :
    notes (beforeHead.open_ b tag).edits = notes b.edits := by
  unfold beforeHead.open_
  simp

@[simp] theorem notes_beforeHead (p : Piece) : notes (b.beforeHead p).edits = notes b.edits := by
  unfold beforeHead
  split
  · simp
  · simp
  · simp
  · split <;> simp
  all_goals simp

@[simp] theorem notes_inHeadNoscript (p : Piece) :
    notes (b.inHeadNoscript p).edits = notes b.edits := by
  unfold inHeadNoscript
  split
  · simp
  · simp
  · simp
  · split <;> simp
  all_goals simp

@[simp] theorem notes_afterHead (p : Piece) : notes (b.afterHead p).edits = notes b.edits := by
  unfold afterHead
  split
  · simp
  · simp
  · split_ifs <;> (try split) <;> simp
  · split <;> simp
  all_goals simp

/-! ## In the body -/

@[simp] theorem edits_endParagraph : b.endParagraph.edits = b.edits := by
  unfold endParagraph
  split <;> rfl

@[simp] theorem notes_insertFormatted (tag : Tag) :
    notes (b.insertFormatted tag).edits = notes b.edits := by
  unfold insertFormatted
  simp

@[simp] theorem notes_startItem (tag : Tag) (ended : List String) :
    notes (b.startItem tag ended).edits = notes b.edits := by
  unfold startItem
  dsimp only
  split <;> simp

@[simp] theorem notes_endLink : notes b.endLink.edits = notes b.edits := by
  unfold endLink
  split <;> simp

@[simp] theorem notes_startBody (tag : Tag) : notes (b.startBody tag).edits = notes b.edits := by
  unfold startBody
  split
  · split <;> simp
  · rfl

@[simp] theorem notes_startFrameset (tag : Tag) :
    notes (b.startFrameset tag).edits = notes b.edits := by
  unfold startFrameset
  split
  · split <;> simp
  · rfl

@[simp] theorem notes_startForm (tag : Tag) : notes (b.startForm tag).edits = notes b.edits := by
  unfold startForm
  simp

@[simp] theorem edits_endForm : b.endForm.edits = b.edits := by
  unfold endForm
  split
  · split <;> rfl
  · split
    · rfl
    · dsimp only
      split <;> rfl

@[simp] theorem notes_startSelect (tag : Tag) :
    notes (b.startSelect tag).edits = notes b.edits := by
  unfold startSelect
  simp

@[simp] theorem notes_startVoid (tag : Tag) : notes (b.startVoid tag).edits = notes b.edits := by
  unfold startVoid
  dsimp only
  split <;> simp

@[simp] theorem notes_startRuby (tag : Tag) : notes (b.startRuby tag).edits = notes b.edits := by
  unfold startRuby
  simp

@[simp] theorem notes_insertForeign (space : Space) (tag : Tag) :
    notes (b.insertForeign space tag).edits = notes b.edits := by
  unfold insertForeign
  dsimp only
  split <;> simp

@[simp] theorem notes_startInBody (start : Tag) :
    notes (b.startInBody start).edits = notes b.edits := by
  unfold startInBody
  generalize (if start.name == "image" then { start with name := "img" } else start) = tag
  simp

@[simp] theorem notes_endInBody (tag : Tag) : notes (b.endInBody tag).edits = notes b.edits := by
  unfold endInBody
  simp

@[simp] theorem notes_charsInBody (run : List Char) :
    notes (b.charsInBody run).edits = notes b.edits := by
  unfold charsInBody
  simp

@[simp] theorem notes_inBody (p : Piece) : notes (b.inBody p).edits = notes b.edits := by
  unfold inBody
  split <;> simp

/-! ## In tables -/

@[simp] theorem notes_fosterInBody (p : Piece) :
    notes (b.fosterInBody p).edits = notes b.edits := by
  unfold fosterInBody
  have hmap : ∀ o : Outcome, (o.map ({ · with fostering := false })).edits = o.edits :=
    Outcome.edits_map fun _ => rfl
  rw [hmap, notes_inBody]

@[simp] theorem notes_charsInTable (p : Piece) :
    notes (b.charsInTable p).edits = notes b.edits := by
  unfold charsInTable
  simp

@[simp] theorem edits_endTable : b.endTable.edits = b.edits := rfl

@[simp] theorem notes_startInTable (tag : Tag) :
    notes (b.startInTable tag).edits = notes b.edits := by
  unfold startInTable
  simp

@[simp] theorem notes_endInTable (tag : Tag) :
    notes (b.endInTable tag).edits = notes b.edits := by
  unfold endInTable
  simp

@[simp] theorem notes_inTable (p : Piece) : notes (b.inTable p).edits = notes b.edits := by
  unfold inTable
  split <;> simp

theorem notes_foldl {f : Builder → List Char → Builder}
    (hf : ∀ b run, notes (f b run).edits = notes b.edits) (runs : List (List Char)) :
    notes (runs.foldl f b).edits = notes b.edits := by
  induction runs generalizing b with
  | nil => rfl
  | cons run runs ih => rw [List.foldl_cons, ih, hf]

@[simp] theorem notes_placeTableText : notes b.placeTableText.edits = notes b.edits := by
  unfold placeTableText
  dsimp only
  split
  · exact notes_foldl _ notes_charsInBody _
  · exact notes_foldl _ notes_putText _

@[simp] theorem notes_inTableText (p : Piece) :
    notes (b.inTableText p).edits = notes b.edits := by
  unfold inTableText
  split <;> simp

@[simp] theorem notes_inCaption (p : Piece) : notes (b.inCaption p).edits = notes b.edits := by
  unfold inCaption inCaption.leave inCaption.left
  split
  · simp
  · split <;> simp
  · simp

@[simp] theorem notes_inColumnGroup (p : Piece) :
    notes (b.inColumnGroup p).edits = notes b.edits := by
  unfold inColumnGroup inColumnGroup.leave
  split
  any_goals simp
  all_goals split <;> simp

@[simp] theorem edits_leaveSection : b.leaveSection.edits = b.edits := rfl

@[simp] theorem notes_inTableBody (p : Piece) :
    notes (b.inTableBody p).edits = notes b.edits := by
  unfold inTableBody
  dsimp only
  split <;> simp

@[simp] theorem edits_leaveRow : b.leaveRow.edits = b.edits := rfl

@[simp] theorem notes_inRow (p : Piece) : notes (b.inRow p).edits = notes b.edits := by
  unfold inRow
  dsimp only
  split <;> simp

@[simp] theorem edits_leaveCell : b.leaveCell.edits = b.edits := rfl

@[simp] theorem notes_inCell (p : Piece) : notes (b.inCell p).edits = notes b.edits := by
  unfold inCell
  dsimp only
  split <;> simp

/-! ## In selection lists, templates and framesets -/

@[simp] theorem edits_leaveSelect : b.leaveSelect.edits = b.edits := rfl

@[simp] theorem edits_endOption : b.endOption.edits = b.edits := by
  unfold endOption
  split <;> rfl

@[simp] theorem edits_endGroup : b.endGroup.edits = b.edits := by
  unfold endGroup
  split <;> rfl

@[simp] theorem notes_inSelect (p : Piece) : notes (b.inSelect p).edits = notes b.edits := by
  unfold inSelect
  dsimp only
  split
  any_goals simp
  all_goals split <;> simp

@[simp] theorem notes_inSelectInTable (p : Piece) :
    notes (b.inSelectInTable p).edits = notes b.edits := by
  unfold inSelectInTable
  dsimp only
  split <;> simp

@[simp] theorem edits_turnTemplate (mode : Insertion) :
    (b.turnTemplate mode).edits = b.edits := rfl

@[simp] theorem notes_inTemplate (p : Piece) : notes (b.inTemplate p).edits = notes b.edits := by
  unfold inTemplate
  split <;> simp

@[simp] theorem notes_inText (p : Piece) : notes (b.inText p).edits = notes b.edits := by
  unfold inText
  split <;> simp

@[simp] theorem notes_afterBody (p : Piece) : notes (b.afterBody p).edits = notes b.edits := by
  unfold afterBody afterBody.back
  split <;> simp

@[simp] theorem notes_afterAfterBody (p : Piece) :
    notes (b.afterAfterBody p).edits = notes b.edits := by
  unfold afterAfterBody afterAfterBody.back
  split <;> simp

@[simp] theorem notes_inFrameset (p : Piece) : notes (b.inFrameset p).edits = notes b.edits := by
  unfold inFrameset
  split
  any_goals simp
  split <;> simp

@[simp] theorem notes_afterFrameset (p : Piece) :
    notes (b.afterFrameset p).edits = notes b.edits := by
  unfold afterFrameset
  split
  any_goals simp
  split <;> simp

@[simp] theorem notes_afterAfterFrameset (p : Piece) :
    notes (b.afterAfterFrameset p).edits = notes b.edits := by
  unfold afterAfterFrameset
  split
  any_goals simp
  split <;> simp

/-! ## A piece of a token -/

@[simp] theorem notes_byMode (p : Piece) : notes (b.byMode p).edits = notes b.edits := by
  unfold byMode
  split <;> simp

@[simp] theorem notes_breakOut (p : Piece) : notes (b.breakOut p).edits = notes b.edits := by
  unfold breakOut
  simp

@[simp] theorem notes_endForeign (tag : Tag) :
    notes (b.endForeign tag).edits = notes b.edits := by
  unfold endForeign
  simp

@[simp] theorem notes_inForeignContent (p : Piece) :
    notes (b.inForeignContent p).edits = notes b.edits := by
  unfold inForeignContent
  split <;> simp

@[simp] theorem notes_once (p : Piece) : notes (b.once p).edits = notes b.edits := by
  unfold once
  simp

theorem notes_pieceWithin (p : Piece) (n : Nat) :
    notes (pieceWithin p n b).1.edits = notes b.edits := by
  induction n generalizing b with
  | zero => rfl
  | succ n ih =>
    have honce : notes (b.once p).edits = notes b.edits := b.notes_once p
    unfold pieceWithin
    cases h : b.once p with
    | done b' | signal s b' =>
      rw [h] at honce
      exact honce
    | again b' =>
      rw [h] at honce
      exact (ih b').trans honce

/-- **The tree builder makes no notes.** -/
@[simp] theorem notes_piece (p : Piece) : notes (b.piece p).1.edits = notes b.edits :=
  b.notes_pieceWithin p _

end Builder

end HtmlWalk.Html
