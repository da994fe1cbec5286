import HtmlWalk.Proofs.Html.Mirror.Text

/-!
# Pieces and builders that mirror each other

The rules of tables, of selection lists, of templates, of framesets and of foreign content, and from
all rules together:

**Theorem (`Builder.Mirrored.piece`).** Two builders that mirror each other still do so after a
piece of a token, and they ask the same of the tokenizer.

The names of the nodes stay what they are under most rules. Where characters that were kept in a
table are placed, they come in other parts, and so the nodes after them get other names.
-/

namespace HtmlWalk.Html

namespace Builder.Mirrors

variable {f : Nat → Nat} {b b' : Builder} (h : Mirrors f b b')
include h

/-! ## Tables -/

theorem fosterInBody (hmode : b.mode.isText = false) (p : Piece) :
    (b.fosterInBody p).Mirrors f (b'.fosterInBody p) :=
  ((h.setFostering true).inBody hmode p).map fun h => h.setFostering false

theorem charsInTable (hmode : b.mode.isText = false) (p : Piece) :
    (b.charsInTable p).Mirrors f (b'.charsInTable p) := by
  unfold Builder.charsInTable
  rw [h.current_name]
  refine .ite (fun _ => .again ?_) fun _ => h.fosterInBody hmode p
  exact { h with mode := rfl, resume := h.mode, fit := { h.fit with resume := hmode } }

theorem endTable : Mirrors f b.endTable b'.endTable := (h.popThroughTag "table").resetMode

theorem startInTable (hmode : b.mode.isText = false) (tag : Tag) :
    (b.startInTable tag).Mirrors f (b'.startInTable tag) := by
  have hcleared := h.popToName Name.holdsSections
  unfold Builder.startInTable
  dsimp only
  rw [h.inScope, h.hasOpen, h.form, Option.isSome_map]
  refine .ite (fun _ => .done ((hcleared.mark.insert tag).goto _)) fun _ => ?_
  refine .ite (fun _ => .done ((hcleared.insert tag).goto _)) fun _ => ?_
  refine .ite (fun _ => .again ((hcleared.insertImplied _).goto _)) fun _ => ?_
  refine .ite (fun _ => .done ((hcleared.insert tag).goto _)) fun _ => ?_
  refine .ite (fun _ => .again ((hcleared.insertImplied _).goto _)) fun _ => ?_
  refine .ite (fun _ => .ite (fun _ => .again h.endTable) fun _ => .done h) fun _ => ?_
  refine .ite (fun _ => h.startInHead hmode tag) fun _ => ?_
  refine .ite (fun _ => .done (h.insertVoid tag)) fun _ => ?_
  refine .ite (fun _ => .ite (fun _ => .done h) fun _ => ?_) fun _ => h.fosterInBody hmode _
  have hid : b.nextId < (b.insertVoid tag).edits.size := by
    have hlt : b.edits.size < b.edits.size + 1 + 1 := by omega
    simp [Builder.insertVoid, Builder.insertClosed, Builder.nextId, hlt]
  rw [h.nextId]
  refine .done ((h.insertVoid tag).setForm (some b.nextId) fun id hid' => ?_)
  obtain rfl := Option.some.inj hid'
  exact hid

theorem endInTable (hmode : b.mode.isText = false) (tag : Tag) :
    (b.endInTable tag).Mirrors f (b'.endInTable tag) := by
  unfold Builder.endInTable
  dsimp only
  rw [h.inScope]
  refine .ite (fun _ => .done (ite h.endTable h)) fun _ => ?_
  refine .ite (fun _ => .done h) fun _ => ?_
  exact .ite (fun _ => .done h.endTemplate) fun _ => h.fosterInBody hmode _

theorem inTable (hmode : b.mode.isText = false) (p : Piece) :
    (b.inTable p).Mirrors f (b'.inTable p) := by
  unfold Builder.inTable
  split
  · exact h.charsInTable hmode _
  · exact h.charsInTable hmode _
  · exact h.charsInTable hmode _
  · exact .done (h.putComment _)
  · exact h.startInTable hmode _
  · exact h.endInTable hmode _
  · exact h.inBody hmode _

theorem inCaption (hmode : b.mode.isText = false) (p : Piece) :
    (b.inCaption p).Mirrors f (b'.inCaption p) := by
  have hinside : inCaption.inside b' = inCaption.inside b := h.inScope _ _
  have hleft : Mirrors f (inCaption.left b) (inCaption.left b') :=
    (h.popThroughTag "caption").clearToMarker.goto .inTable
  have hleave : (inCaption.leave b).Mirrors f (inCaption.leave b') := by
    unfold inCaption.leave
    rw [hinside]
    exact .ite (fun _ => .again hleft) fun _ => .done h
  unfold Builder.inCaption
  rw [hinside]
  split
  · exact .ite (fun _ => hleave) fun _ => h.inBody hmode _
  · split
    · exact .ite (fun _ => .done hleft) fun _ => .done h
    · exact hleave
    · exact .ite (fun _ => .done h) fun _ => h.inBody hmode _
  · exact h.inBody hmode _

theorem inColumnGroup (hmode : b.mode.isText = false) (p : Piece) :
    (b.inColumnGroup p).Mirrors f (b'.inColumnGroup p) := by
  have hleave : (inColumnGroup.leave b).Mirrors f (inColumnGroup.leave b') := by
    unfold inColumnGroup.leave
    rw [h.currentIs]
    exact .ite (fun _ => .again (h.pop.goto _)) fun _ => .done h
  unfold Builder.inColumnGroup
  rw [h.currentIs]
  split
  · exact .done (h.putText _)
  · exact .done (h.putComment _)
  · split
    · exact .done (h.startHtml _)
    · exact .done (h.insertVoid _)
    · exact h.startInHead hmode _
    · exact hleave
  · split
    · exact .done (ite (h.pop.goto _) h)
    · exact .done h
    · exact .done h.endTemplate
    · exact hleave
  · exact h.inBody hmode _
  · exact hleave
  · exact hleave

theorem leaveSection : Mirrors f b.leaveSection b'.leaveSection :=
  (h.popToName Name.holdsRows).pop.goto .inTable

theorem inTableBody (hmode : b.mode.isText = false) (p : Piece) :
    (b.inTableBody p).Mirrors f (b'.inTableBody p) := by
  have hcleared := h.popToName Name.holdsRows
  unfold Builder.inTableBody
  dsimp only
  rw [h.hasNameInScope Name.boundsTableScope (·.isHtmlIn ["table", "tbody", "tfoot"])]
  split
  · refine .ite (fun _ => .done ((hcleared.insert _).goto _)) fun _ => ?_
    refine .ite (fun _ => .again ((hcleared.insertImplied _).goto _)) fun _ => ?_
    exact .ite (fun _ => .ite (fun _ => .again h.leaveSection) fun _ => .done h)
      fun _ => h.inTable hmode _
  · rw [h.inScope]
    refine .ite (fun _ => .done (ite h.leaveSection h)) fun _ => ?_
    refine .ite (fun _ => .ite (fun _ => .again h.leaveSection) fun _ => .done h) fun _ => ?_
    exact .ite (fun _ => .done h) fun _ => h.inTable hmode _
  · exact h.inTable hmode _

theorem leaveRow : Mirrors f b.leaveRow b'.leaveRow :=
  (h.popToName Name.holdsCells).pop.goto .inTableBody

theorem inRow (hmode : b.mode.isText = false) (p : Piece) : (b.inRow p).Mirrors f (b'.inRow p) := by
  have hleave : (if b.inScope Name.boundsTableScope "tr" then Outcome.again b.leaveRow
        else .done b).Mirrors f
      (if b.inScope Name.boundsTableScope "tr" then Outcome.again b'.leaveRow else .done b') :=
    .ite (fun _ => .again h.leaveRow) fun _ => .done h
  unfold Builder.inRow
  dsimp only
  simp only [h.inScope]
  split
  · refine .ite (fun _ => .done ?_) fun _ => .ite (fun _ => hleave) fun _ => h.inTable hmode _
    exact (((h.popToName Name.holdsCells).insert _).goto _).mark
  · refine .ite (fun _ => .done (ite h.leaveRow h)) fun _ => ?_
    refine .ite (fun _ => hleave) fun _ => ?_
    refine .ite (fun _ => .ite (fun _ => hleave) fun _ => .done h) fun _ => ?_
    exact .ite (fun _ => .done h) fun _ => h.inTable hmode _
  · exact h.inTable hmode _

theorem leaveCell : Mirrors f b.leaveCell b'.leaveCell :=
  ((h.popImplied _).popThroughName Name.isCell).clearToMarker.goto .inRow

theorem inCell (hmode : b.mode.isText = false) (p : Piece) :
    (b.inCell p).Mirrors f (b'.inCell p) := by
  unfold Builder.inCell
  dsimp only
  simp only [h.inScope, h.hasNameInScope Name.boundsTableScope Name.isCell]
  split
  · exact .ite (fun _ => .ite (fun _ => .again h.leaveCell) fun _ => .done h)
      fun _ => h.inBody hmode _
  · refine .ite (fun _ => .done (ite ((h.popThroughTag _).clearToMarker.goto _) h)) fun _ => ?_
    refine .ite (fun _ => .done h) fun _ => ?_
    exact .ite (fun _ => .ite (fun _ => .again h.leaveCell) fun _ => .done h)
      fun _ => h.inBody hmode _
  · exact h.inBody hmode _

/-! ## Selection lists, templates and text -/

theorem leaveSelect : Mirrors f b.leaveSelect b'.leaveSelect :=
  (h.popThroughTag "select").resetMode

theorem endOption : Mirrors f b.endOption b'.endOption := by
  unfold Builder.endOption
  rw [h.currentIs]
  exact ite h.pop h

theorem endGroup : Mirrors f b.endGroup b'.endGroup := by
  unfold Builder.endGroup
  rw [h.currentIs]
  exact ite h.pop h

theorem inSelect (hmode : b.mode.isText = false) (p : Piece) :
    (b.inSelect p).Mirrors f (b'.inSelect p) := by
  unfold Builder.inSelect
  dsimp only
  simp only [h.inScope, h.pop.currentIs]
  split
  · exact .done h
  · exact .done (h.putText _)
  · exact .done (h.putText _)
  · exact .done (h.putComment _)
  · split
    · exact .done (h.startHtml _)
    · exact .done (h.endOption.insert _)
    · exact .done (h.endOption.endGroup.insert _)
    · exact .done (h.endOption.endGroup.insertVoid _)
    · exact .done (ite h.leaveSelect h)
    · exact .ite (fun _ => .again h.leaveSelect) fun _ => .done h
    · exact .ite (fun _ => .again h.leaveSelect) fun _ => .done h
    · exact .ite (fun _ => .again h.leaveSelect) fun _ => .done h
    · exact h.startInHead hmode _
    · exact h.startInHead hmode _
    · exact .done h
  · split
    · exact .done (ite h.endOption h).endGroup
    · exact .done h.endOption
    · exact .done (ite h.leaveSelect h)
    · exact .done h.endTemplate
    · exact .done h
  · exact h.inBody hmode _

theorem inSelectInTable (hmode : b.mode.isText = false) (p : Piece) :
    (b.inSelectInTable p).Mirrors f (b'.inSelectInTable p) := by
  unfold Builder.inSelectInTable
  dsimp only
  split
  · exact .ite (fun _ => .again h.leaveSelect) fun _ => h.inSelect hmode _
  · rw [h.inScope]
    exact .ite (fun _ => .ite (fun _ => .again h.leaveSelect) fun _ => .done h)
      fun _ => h.inSelect hmode _
  · exact h.inSelect hmode _

theorem turnTemplate {mode : Insertion} (hmode : mode ∈ templateModes) :
    (b.turnTemplate mode).Mirrors f (b'.turnTemplate mode) :=
  .again { h with
    mode := rfl
    templates := congrArg (fun ts => mode :: ts.tail) h.templates
    fit := { h.fit with
      templates := List.forall_mem_cons.2
        ⟨hmode, fun m hm => h.fit.templates m (List.mem_of_mem_tail hm)⟩ } }

theorem inTemplate (hmode : b.mode.isText = false) (p : Piece) :
    (b.inTemplate p).Mirrors f (b'.inTemplate p) := by
  unfold Builder.inTemplate
  split
  · exact .done h
  · exact h.inBody hmode _
  · exact h.inBody hmode _
  · exact h.inBody hmode _
  · refine .ite (fun _ => h.startInHead hmode _) fun _ => h.turnTemplate ?_
    split_ifs <;> simp [templateModes]
  · exact .done (ite h.endTemplate h)
  · exact h.eofInTemplate

theorem pop_goto_resume : Mirrors f (b.pop.goto b.resume) (b'.pop.goto b'.resume) := by
  rw [h.resume]
  exact h.pop.goto _

theorem inText (p : Piece) : (b.inText p).Mirrors f (b'.inText p) := by
  unfold Builder.inText
  split
  · exact .done (h.putText _)
  · exact .done (h.putText _)
  · exact .ite (fun _ => .signal _ h.pop_goto_resume) fun _ => .done h.pop_goto_resume
  · exact .again h.pop_goto_resume
  all_goals exact .done h

/-! ## After the body, and framesets -/

theorem afterBody (hmode : b.mode.isText = false) (p : Piece) :
    (b.afterBody p).Mirrors f (b'.afterBody p) := by
  have hback : (afterBody.back b).Mirrors f (afterBody.back b') := .again (h.goto .inBody)
  unfold Builder.afterBody
  rw [h.fragment, h.root]
  split
  · exact h.inBody hmode _
  · exact .done (h.putCommentAt (p := .children b.root.id) h.fit.root _)
  · exact .ite (fun _ => .done (h.startHtml _)) fun _ => hback
  · exact .ite (fun _ => .done (ite h (h.goto _))) fun _ => hback
  · exact .done h
  · exact hback
  · exact hback

theorem afterAfterBody (hmode : b.mode.isText = false) (p : Piece) :
    (b.afterAfterBody p).Mirrors f (b'.afterAfterBody p) := by
  have hback : (afterAfterBody.back b).Mirrors f (afterAfterBody.back b') :=
    .again (h.goto .inBody)
  unfold Builder.afterAfterBody
  split
  · exact h.inBody hmode _
  · exact .done (h.putCommentAt (p := .document) trivial _)
  · exact .ite (fun _ => .done (h.startHtml _)) fun _ => hback
  · exact .done h
  all_goals exact hback

theorem inFrameset (hmode : b.mode.isText = false) (p : Piece) :
    (b.inFrameset p).Mirrors f (b'.inFrameset p) := by
  have hempty : b'.stack.isEmpty = b.stack.isEmpty := by rw [h.stack, List.isEmpty_map]
  unfold Builder.inFrameset
  dsimp only
  rw [hempty, h.pop.fragment, h.pop.currentIs]
  split
  · exact .done (h.putText _)
  · exact .done (h.putComment _)
  · split
    · exact .done (h.startHtml _)
    · exact .done (h.insert _)
    · exact .done (h.insertVoid _)
    · exact h.startInHead hmode _
    · exact .done h
  · exact .ite (fun _ => .done (ite h.pop (h.pop.goto _))) fun _ => .done h
  all_goals exact .done h

theorem afterFrameset (hmode : b.mode.isText = false) (p : Piece) :
    (b.afterFrameset p).Mirrors f (b'.afterFrameset p) := by
  unfold Builder.afterFrameset
  split
  · exact .done (h.putText _)
  · exact .done (h.putComment _)
  · split
    · exact .done (h.startHtml _)
    · exact h.startInHead hmode _
    · exact .done h
  · exact .done (ite (h.goto _) h)
  all_goals exact .done h

theorem afterAfterFrameset (hmode : b.mode.isText = false) (p : Piece) :
    (b.afterAfterFrameset p).Mirrors f (b'.afterAfterFrameset p) := by
  unfold Builder.afterAfterFrameset
  split
  · exact h.inBody hmode _
  · exact .done (h.putCommentAt (p := .document) trivial _)
  · split
    · exact .done (h.startHtml _)
    · exact h.startInHead hmode _
    · exact .done h
  all_goals exact .done h

end Builder.Mirrors

/-! ## All modes -/

/-- Two outcomes say the same, in builders that mirror each other under some names. -/
def Outcome.Mirrored (o o' : Outcome) : Prop := ∃ f, o.Mirrors f o'

namespace Builder.Mirrors

variable {f : Nat → Nat} {b b' : Builder} (h : Mirrors f b b')
include h

theorem inTableText (p : Piece) : (b.inTableText p).Mirrored (b'.inTableText p) := by
  have hplace : Outcome.Mirrored (.again (b.placeTableText.goto b.resume))
      (.again (b'.placeTableText.goto b'.resume)) := by
    rw [h.resume]
    obtain ⟨g, hg⟩ := h.placeTableText
    exact ⟨g, .again (hg.goto _)⟩
  unfold Builder.inTableText
  split
  · exact ⟨f, .done h⟩
  · exact ⟨f, .done (h.setTableText (h.tableText.whole _))⟩
  · exact ⟨f, .done (h.setTableText (h.tableText.whole _))⟩
  all_goals exact hplace

theorem byMode (p : Piece) : (b.byMode p).Mirrored (b'.byMode p) := by
  unfold Builder.byMode
  rw [h.mode]
  cases hmode : b.mode with
  | beforeHead => exact ⟨f, h.beforeHead p⟩
  | inHead => exact ⟨f, h.inHead (by rw [hmode]; rfl) p⟩
  | inHeadNoscript => exact ⟨f, h.inHeadNoscript (by rw [hmode]; rfl) p⟩
  | afterHead => exact ⟨f, h.afterHead (by rw [hmode]; rfl) p⟩
  | inBody => exact ⟨f, h.inBody (by rw [hmode]; rfl) p⟩
  | text => exact ⟨f, h.inText p⟩
  | inTable => exact ⟨f, h.inTable (by rw [hmode]; rfl) p⟩
  | inTableText => exact h.inTableText p
  | inCaption => exact ⟨f, h.inCaption (by rw [hmode]; rfl) p⟩
  | inColumnGroup => exact ⟨f, h.inColumnGroup (by rw [hmode]; rfl) p⟩
  | inTableBody => exact ⟨f, h.inTableBody (by rw [hmode]; rfl) p⟩
  | inRow => exact ⟨f, h.inRow (by rw [hmode]; rfl) p⟩
  | inCell => exact ⟨f, h.inCell (by rw [hmode]; rfl) p⟩
  | inSelect => exact ⟨f, h.inSelect (by rw [hmode]; rfl) p⟩
  | inSelectInTable => exact ⟨f, h.inSelectInTable (by rw [hmode]; rfl) p⟩
  | inTemplate => exact ⟨f, h.inTemplate (by rw [hmode]; rfl) p⟩
  | afterBody => exact ⟨f, h.afterBody (by rw [hmode]; rfl) p⟩
  | inFrameset => exact ⟨f, h.inFrameset (by rw [hmode]; rfl) p⟩
  | afterFrameset => exact ⟨f, h.afterFrameset (by rw [hmode]; rfl) p⟩
  | afterAfterBody => exact ⟨f, h.afterAfterBody (by rw [hmode]; rfl) p⟩
  | afterAfterFrameset => exact ⟨f, h.afterAfterFrameset (by rw [hmode]; rfl) p⟩

/-! ## Foreign content -/

theorem deciding : b'.deciding = b.deciding.rename f := by
  rw [Builder.deciding, Builder.deciding, h.fragment, h.stack, List.isEmpty_map, h.root, h.current,
    apply_ite (Open.rename f)]
  rfl

theorem inForeign : b'.inForeign = b.inForeign := by
  rw [Builder.inForeign, Builder.inForeign, h.deciding, Open.rename]

theorem isForeign (p : Piece) : b'.isForeign p = b.isForeign p := by
  unfold Builder.isForeign
  rw [h.deciding]
  rfl

theorem splitsText : b'.splitsText = b.splitsText := by
  rw [Builder.splitsText, Builder.splitsText, h.mode, h.isForeign]

theorem breakOut (p : Piece) : (b.breakOut p).Mirrored (b'.breakOut p) :=
  (h.popToName fun n => n.space == .html || n.isMathText || n.isDrawingText).byMode p

theorem endForeign (tag : Tag) : (b.endForeign tag).Mirrored (b'.endForeign tag) := by
  have hforeign : b'.stack.head?.toList ++ b'.stack.tail.takeWhile (·.name.space != .html) =
      (b.stack.head?.toList ++ b.stack.tail.takeWhile (·.name.space != .html)).map
        (Open.rename f) := by
    rw [h.stack]
    cases b.stack with
    | nil => rfl
    | cons o os =>
      have htake : (os.map (Open.rename f)).takeWhile (·.name.space != .html) =
          (os.takeWhile (·.name.space != .html)).map (Open.rename f) := List.takeWhile_map
      exact congrArg (o.rename f :: ·) htake
  have hlength : b'.stack.length = b.stack.length := by rw [h.stack, List.length_map]
  unfold Builder.endForeign
  simp only [hforeign, List.any_map, List.length_map, hlength, Function.comp_def, Open.rename]
  split
  · exact ⟨f, .done (h.popThroughName fun n => n.tag.map Char.toLower == tag.name.map Char.toLower)⟩
  · split
    · exact h.byMode _
    · exact ⟨f, .done h⟩

theorem inForeignContent (p : Piece) : (b.inForeignContent p).Mirrored (b'.inForeignContent p) := by
  unfold Builder.inForeignContent
  dsimp only
  rw [h.deciding, Open.rename]
  split
  · exact ⟨f, .done (h.putText _)⟩
  · exact ⟨f, .done ((h.noFramesetAfter _).putText _)⟩
  · exact ⟨f, .done ((h.noFramesetAfter _).putText _)⟩
  · exact ⟨f, .done (h.putComment _)⟩
  · split
    · exact h.breakOut _
    · exact ⟨f, .done (h.insertForeign _ _)⟩
  · split
    · exact h.breakOut _
    · exact h.endForeign _
  · exact ⟨f, .done h⟩

/-! ## Pieces -/

theorem once (p : Piece) : (b.once p).Mirrored (b'.once p) := by
  unfold Builder.once
  rw [h.isForeign]
  split
  · exact h.inForeignContent p
  · exact h.byMode p

end Builder.Mirrors

namespace Builder.Mirrored

variable {b b' : Builder}

theorem pieceWithin (h : b.Mirrored b') (p : Piece) (n : Nat) :
    (Builder.pieceWithin p n b).1.Mirrored (Builder.pieceWithin p n b').1 ∧
      (Builder.pieceWithin p n b').2 = (Builder.pieceWithin p n b).2 := by
  induction n generalizing b b' with
  | zero => exact ⟨h, rfl⟩
  | succ n ih =>
    obtain ⟨f, h⟩ := h
    obtain ⟨g, honce⟩ := h.once p
    unfold Builder.pieceWithin
    generalize b.once p = o at honce ⊢
    generalize b'.once p = o' at honce ⊢
    cases honce with
    | done h => exact ⟨⟨g, h⟩, rfl⟩
    | signal s h => exact ⟨⟨g, h⟩, rfl⟩
    | again h => exact ih ⟨g, h⟩

/-- **Pieces are dealt with alike.** -/
theorem piece (h : b.Mirrored b') (p : Piece) :
    (b.piece p).1.Mirrored (b'.piece p).1 ∧ (b'.piece p).2 = (b.piece p).2 := by
  have hlength : b'.stack.length = b.stack.length := by
    obtain ⟨f, h⟩ := h
    rw [h.stack, List.length_map]
  unfold Builder.piece
  rw [hlength]
  exact h.pieceWithin p _

end Builder.Mirrored

end HtmlWalk.Html
