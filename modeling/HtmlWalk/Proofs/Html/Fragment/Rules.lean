import HtmlWalk.Proofs.Html.Fragment.Formatting
import HtmlWalk.Proofs.Html.Doctypes

/-!
# Rules in a fragment

Each rule of the insertion modes in a fragment keeps the builder in the fragment, and so does each
rule of foreign content. There are no lemmas about the other modes: the builder never gets there.

**Theorem (`Stage.InFragment.token`).** Whatever tokens a fragment is made of, its builder never
leaves the root element.
-/

namespace HtmlWalk.Html

/-- An outcome that leaves the builder in the fragment. -/
def Outcome.InFragment : Outcome → Prop
  | done b | signal _ b | again b => b.InFragment

theorem Outcome.InFragment.map {o : Outcome} (h : o.InFragment) {k : Builder → Builder}
    (hk : ∀ {b : Builder}, b.InFragment → (k b).InFragment) : (o.map k).InFragment := by
  cases o <;> exact hk h

theorem Outcome.InFragment.ite {c : Prop} [Decidable c] {o o' : Outcome}
    (h : c → o.InFragment) (h' : ¬c → o'.InFragment) : (if c then o else o').InFragment := by
  split
  · next hc => exact h hc
  · next hc => exact h' hc

theorem Builder.InFragment.ite {c : Prop} [Decidable c] {b b' : Builder} (h : b.InFragment)
    (h' : b'.InFragment) : (if c then b else b').InFragment := by
  split
  · exact h
  · exact h'

theorem notMem_outerTags_of_beq {tag s : String} (h : (tag == s) = true)
    (hs : s ∉ outerTags := by decide) : tag ∉ outerTags :=
  beq_iff_eq.1 h ▸ hs

theorem notMem_outerTags_of_contains {tags : List String} {tag : String}
    (h : tags.contains tag = true) (htags : ∀ s ∈ tags, s ∉ outerTags := by decide) :
    tag ∉ outerTags :=
  htags tag (List.contains_iff_mem.1 h)

namespace Builder.InFragment

variable {b : Builder} (h : b.InFragment)
include h

/-! ## Templates and what belongs into the head -/

theorem insertRaw {tag : Tag} (htag : tag.name ∉ outerTags) (kind : Raw) :
    (b.insertRaw tag kind).InFragment := by
  have hopen := h.insert htag
  have hmode := hopen.mode
  exact { hopen with mode := rfl, resume := hmode }

theorem startHtml (tag : Tag) : (b.startHtml tag).InFragment := by
  unfold Builder.startHtml
  exact ite h (h.addAttrs _ _)

theorem openTemplate {tag : Tag} (htag : tag.name ∉ outerTags) :
    (b.openTemplate tag).InFragment := by
  have hmarked := (h.insert htag).mark.noFrameset
  exact { hmarked with
    mode := rfl, templates := List.forall_mem_cons.2 ⟨rfl, hmarked.templates⟩ }

theorem leaveTemplate : b.leaveTemplate.InFragment := by
  have hcleared := (h.popThroughTag "template").clearToMarker
  exact resetMode { hcleared with
    templates := fun mode hmode => hcleared.templates mode (List.mem_of_mem_tail hmode) }

theorem endTemplate : b.endTemplate.InFragment := by
  unfold Builder.endTemplate
  exact ite h.leaveTemplate h

theorem eofInTemplate : b.eofInTemplate.InFragment := by
  unfold Builder.eofInTemplate
  exact .ite (fun _ => h.leaveTemplate) fun _ => h

theorem startInHead (tag : Tag) : (b.startInHead tag).InFragment := by
  unfold Builder.startInHead
  split
  case h_6 => exact h.insertVoid tag
  case h_5 htag => exact h.openTemplate (by simp [htag, outerTags])
  all_goals
    next htag => exact h.insertRaw (by simp [htag, outerTags]) _

/-! ## The body -/

theorem endParagraph : b.endParagraph.InFragment := by
  unfold Builder.endParagraph
  exact ite (h.popThroughTag "p") h

theorem insertFormatted {tag : Tag} (htag : tag.name ∉ outerTags) :
    (b.insertFormatted tag).InFragment :=
  h.reopenFormatting.insert htag

/-- There is no body in a fragment. -/
theorem body?_eq_none : b.body? = none := by
  rw [Builder.body?, Option.filter_eq_none_iff]
  intro o ho hbody
  have houter : "body" ∈ outerTags := by simp [outerTags]
  have hnot := (h.stack o (List.mem_of_getLast? ho)).name.not_isHtml houter
  rw [hnot] at hbody
  cases hbody

theorem startItem {tag : Tag} (htag : tag.name ∉ outerTags) (ended : List String) :
    (b.startItem tag ended).InFragment := by
  unfold Builder.startItem
  dsimp only
  split
  · exact (h.noFrameset.popThroughTag _).endParagraph.insert htag
  · exact h.noFrameset.endParagraph.insert htag

theorem endLink : b.endLink.InFragment := by
  unfold Builder.endLink
  split
  · exact ((h.adopt "a").unformat _).forget _
  · exact h

theorem setForm (form : Option NodeId) : InFragment { b with form } := { h with }

theorem startForm {tag : Tag} (htag : tag.name ∉ outerTags) : (b.startForm tag).InFragment := by
  have hopen := h.endParagraph.insert htag
  unfold Builder.startForm
  exact ite h (ite hopen (hopen.setForm _))

theorem endForm : b.endForm.InFragment := by
  unfold Builder.endForm
  split
  · exact ite (h.popThroughTag "form") h
  · split
    · exact h
    · exact ite (((h.setForm none).popImplied _).forget _) (h.setForm none)

theorem startSelect {tag : Tag} (htag : tag.name ∉ outerTags) :
    (b.startSelect tag).InFragment := by
  refine (h.insertFormatted htag).noFrameset.goto ?_
  split <;> rfl

theorem startVoid (tag : Tag) : (b.startVoid tag).InFragment := by
  have hput := h.reopenFormatting.insertVoid tag
  unfold Builder.startVoid
  exact ite hput hput.noFrameset

theorem startRuby {tag : Tag} (htag : tag.name ∉ outerTags) : (b.startRuby tag).InFragment :=
  insert (ite h (ite (h.popImplied _) (h.popImpliedExcept _))) htag

theorem insertForeign {space : Space} (hspace : space ≠ .html) (tag : Tag) :
    (b.insertForeign space tag).InFragment := by
  unfold Builder.insertForeign
  exact ite (h.insertClosed _ _) (h.insertOpen (.of_space hspace) _)

/-- The start tags of a head, a body and a frameset count for nothing. -/
theorem startInBody_of_mem {tag : Tag} (htag : tag.name ∈ outerTags) :
    (b.startInBody tag).InFragment := by
  have hbody : b.startBody tag = b := by rw [Builder.startBody, h.body?_eq_none]
  have hframeset : b.startFrameset tag = b := by rw [Builder.startFrameset, h.body?_eq_none]
  obtain ⟨name, attrs, selfClosing⟩ := tag
  simp only [outerTags, List.mem_cons, List.not_mem_nil, or_false] at htag
  rcases htag with rfl | rfl | rfl
  · exact h
  · exact (congrArg Builder.InFragment hbody).mpr h
  · exact (congrArg Builder.InFragment hframeset).mpr h

theorem startInBody (tag : Tag) : (b.startInBody tag).InFragment := by
  by_cases htag : tag.name ∈ outerTags
  · exact h.startInBody_of_mem htag
  unfold Builder.startInBody
  dsimp only
  have himage : (if tag.name == "image" then { tag with name := "img" } else tag).name ∉
      outerTags := by
    split
    · simp [outerTags]
    · exact htag
  generalize (if tag.name == "image" then { tag with name := "img" } else tag) = tag at himage ⊢
  refine .ite (fun _ => h.startHtml tag) fun _ => ?_
  refine .ite (fun _ => h.startInHead tag) fun _ => ?_
  refine .ite (fun hname => absurd (beq_iff_eq.1 hname) ?_) fun _ => ?_
  · exact fun heq => himage (by simp [heq, outerTags])
  refine .ite (fun hname => absurd (beq_iff_eq.1 hname) ?_) fun _ => ?_
  · exact fun heq => himage (by simp [heq, outerTags])
  refine .ite (fun _ => h.endParagraph.insert himage) fun _ => ?_
  refine .ite (fun _ => (ite h.endParagraph.pop h.endParagraph).insert himage) fun _ => ?_
  refine .ite (fun _ => { (h.endParagraph.insert himage).noFrameset with }) fun _ => ?_
  refine .ite (fun _ => h.startForm himage) fun _ => ?_
  refine .ite (fun _ => h.startItem himage _) fun _ => ?_
  refine .ite (fun _ => h.startItem himage _) fun _ => ?_
  refine .ite (fun _ => h.endParagraph.insert himage) fun _ => ?_
  refine .ite (fun _ => ((ite (h.popThroughTag _) h).insertFormatted himage).noFrameset)
    fun _ => ?_
  refine .ite (fun hname => h.endLink.reopenFormatting.insertFormatting ?_) fun _ => ?_
  · simp [allFormattingTags, beq_iff_eq.1 hname]
  refine .ite (fun hname => h.reopenFormatting.insertFormatting ?_) fun _ => ?_
  · exact List.mem_append_left _ (List.contains_iff_mem.1 hname)
  refine .ite (fun hname => (ite (h.reopenFormatting.adopt _).reopenFormatting
    h.reopenFormatting).insertFormatting ?_) fun _ => ?_
  · simp [allFormattingTags, beq_iff_eq.1 hname]
  refine .ite (fun _ => (h.insertFormatted himage).mark.noFrameset) fun _ => ?_
  refine .ite (fun _ => ((ite h h.endParagraph).insert himage).noFrameset.goto rfl) fun _ => ?_
  refine .ite (fun _ => h.startVoid tag) fun _ => ?_
  refine .ite (fun _ => h.insertVoid tag) fun _ => ?_
  refine .ite (fun _ => (h.endParagraph.insertVoid tag).noFrameset) fun _ => ?_
  refine .ite (fun _ => ?_) fun _ => ?_
  · have hdrop : InFragment { b with dropBreak := true } := { h with }
    exact hdrop.noFrameset.insertRaw himage _
  refine .ite (fun _ => h.endParagraph.reopenFormatting.noFrameset.insertRaw himage _) fun _ => ?_
  refine .ite (fun _ => h.noFrameset.insertRaw himage _) fun _ => ?_
  refine .ite (fun _ => h.insertRaw himage _) fun _ => ?_
  refine .ite (fun _ => h.startSelect himage) fun _ => ?_
  refine .ite (fun _ => (ite h.pop h).insertFormatted himage) fun _ => ?_
  refine .ite (fun _ => h.startRuby himage) fun _ => ?_
  have hmathml : Space.mathml ≠ .html := by decide
  have hsvg : Space.svg ≠ .html := by decide
  refine .ite (fun _ => h.insertForeign hmathml tag) fun _ => ?_
  refine .ite (fun _ => h.insertForeign hsvg tag) fun _ => ?_
  exact .ite (fun _ => h) fun _ => h.insertFormatted himage

theorem endInBody (tag : Tag) : (b.endInBody tag).InFragment := by
  have hbody : b.inScope Name.boundsScope "body" = false :=
    h.inScope_eq_false (by simp [outerTags]) _
  unfold Builder.endInBody
  dsimp only
  rw [hbody]
  refine .ite (fun _ => h.endTemplate) fun _ => ?_
  refine .ite (fun _ => h) fun _ => ?_
  refine .ite (fun _ => h) fun _ => ?_
  refine .ite (fun _ => .ite (fun _ => ?_) fun _ => h) fun _ => ?_
  · exact ite (h.popThroughTag _).clearToMarker (h.popThroughTag _)
  refine .ite (fun _ => h.endForm) fun _ => ?_
  refine .ite (fun _ => ?_) fun _ => ?_
  · exact (ite h (h.insertImplied (by simp [outerTags]))).popThroughTag _
  refine .ite (fun _ => ite (h.popThroughTag _) h) fun _ => ?_
  refine .ite (fun _ => ite (h.popThrough _) h) fun _ => ?_
  refine .ite (fun _ => h.adopt _) fun _ => ?_
  exact .ite (fun _ => h.startVoid _) fun _ => h.endPlain _

theorem charsInBody (run : List Char) : (b.charsInBody run).InFragment :=
  (h.reopenFormatting.noFramesetAfter run).putText run

theorem inBody (p : Piece) : (b.inBody p).InFragment := by
  unfold Builder.inBody
  split
  · exact h
  · exact h.charsInBody _
  · exact h.charsInBody _
  · exact h.putComment _
  · exact h.startInBody _
  · exact h.endInBody _
  · exact .ite (fun _ => h) fun _ => h.eofInTemplate

/-! ## Tables -/

theorem setFostering (fostering : Bool) : InFragment { b with fostering } := { h with }

theorem fosterInBody (p : Piece) : (b.fosterInBody p).InFragment :=
  ((h.setFostering true).inBody p).map fun h => h.setFostering false

theorem charsInTable (p : Piece) : (b.charsInTable p).InFragment := by
  have hmode := h.mode
  unfold Builder.charsInTable
  exact .ite (fun _ => { h with mode := rfl, resume := hmode }) fun _ => h.fosterInBody p

theorem endTable : b.endTable.InFragment := (h.popThroughTag "table").resetMode

theorem startInTable (tag : Tag) : (b.startInTable tag).InFragment := by
  have hcleared := h.popTo (·.name.holdsSections)
  unfold Builder.startInTable
  dsimp only
  refine .ite (fun hname => ?_) fun _ => ?_
  · exact (hcleared.mark.insert (notMem_outerTags_of_beq hname)).goto rfl
  refine .ite (fun hname => ?_) fun _ => ?_
  · exact (hcleared.insert (notMem_outerTags_of_beq hname)).goto rfl
  refine .ite (fun _ => (hcleared.insertImplied (by simp [outerTags])).goto rfl) fun _ => ?_
  refine .ite (fun hname => ?_) fun _ => ?_
  · exact (hcleared.insert (notMem_outerTags_of_contains hname)).goto rfl
  refine .ite (fun _ => (hcleared.insertImplied (by simp [outerTags])).goto rfl) fun _ => ?_
  refine .ite (fun _ => .ite (fun _ => h.endTable) fun _ => h) fun _ => ?_
  refine .ite (fun _ => h.startInHead tag) fun _ => ?_
  refine .ite (fun _ => h.insertVoid tag) fun _ => ?_
  exact .ite (fun _ => .ite (fun _ => h) fun _ => (h.insertVoid tag).setForm _)
    fun _ => h.fosterInBody _

theorem endInTable (tag : Tag) : (b.endInTable tag).InFragment := by
  unfold Builder.endInTable
  dsimp only
  refine .ite (fun _ => ite h.endTable h) fun _ => ?_
  refine .ite (fun _ => h) fun _ => ?_
  exact .ite (fun _ => h.endTemplate) fun _ => h.fosterInBody _

theorem inTable (p : Piece) : (b.inTable p).InFragment := by
  unfold Builder.inTable
  split
  · exact h.charsInTable _
  · exact h.charsInTable _
  · exact h.charsInTable _
  · exact h.putComment _
  · exact h.startInTable _
  · exact h.endInTable _
  · exact h.inBody _

theorem foldl {k : Builder → List Char → Builder}
    (hk : ∀ {b : Builder}, b.InFragment → ∀ run, (k b run).InFragment) (runs : List (List Char)) :
    (runs.foldl k b).InFragment := by
  induction runs generalizing b with
  | nil => exact h
  | cons run runs ih => exact ih (hk h run)

theorem setTableText (tableText : List (List Char)) : InFragment { b with tableText } := { h with }

theorem placeTableText : b.placeTableText.InFragment := by
  have hempty := h.setTableText []
  unfold Builder.placeTableText
  exact ite (((hempty.setFostering true).foldl charsInBody _).setFostering false)
    (hempty.foldl putText _)

theorem inTableText (p : Piece) : (b.inTableText p).InFragment := by
  have hplaced : (b.placeTableText.goto b.resume).InFragment := h.placeTableText.goto h.resume
  unfold Builder.inTableText
  split
  · exact h
  · exact h.setTableText _
  · exact h.setTableText _
  · exact hplaced

theorem inCaption (p : Piece) : (b.inCaption p).InFragment := by
  have hleft : (inCaption.left b).InFragment :=
    (h.popThroughTag "caption").clearToMarker.goto rfl
  have hleave : (inCaption.leave b).InFragment := .ite (fun _ => hleft) fun _ => h
  unfold Builder.inCaption
  split
  · exact .ite (fun _ => hleave) fun _ => h.inBody _
  · split
    · exact .ite (fun _ => hleft) fun _ => h
    · exact hleave
    · exact .ite (fun _ => h) fun _ => h.inBody _
  · exact h.inBody _

theorem inColumnGroup (p : Piece) : (b.inColumnGroup p).InFragment := by
  have hleave : (inColumnGroup.leave b).InFragment :=
    .ite (fun _ => h.pop.goto rfl) fun _ => h
  unfold Builder.inColumnGroup
  split
  · exact h.putText _
  · exact h.putComment _
  · split
    · exact h.startHtml _
    · exact h.insertVoid _
    · exact h.startInHead _
    · exact hleave
  · split
    · exact ite (h.pop.goto rfl) h
    · exact h
    · exact h.endTemplate
    · exact hleave
  · exact h.inBody _
  · exact hleave
  · exact hleave

theorem leaveSection : b.leaveSection.InFragment := (h.popTo _).pop.goto rfl

theorem inTableBody (p : Piece) : (b.inTableBody p).InFragment := by
  have hcleared := h.popTo (·.name.holdsRows)
  unfold Builder.inTableBody
  dsimp only
  split
  · refine .ite (fun hname => ?_) fun _ => ?_
    · exact (hcleared.insert (notMem_outerTags_of_beq hname)).goto rfl
    refine .ite (fun _ => (hcleared.insertImplied (by simp [outerTags])).goto rfl) fun _ => ?_
    exact .ite (fun _ => .ite (fun _ => h.leaveSection) fun _ => h) fun _ => h.inTable _
  · refine .ite (fun _ => ite h.leaveSection h) fun _ => ?_
    refine .ite (fun _ => .ite (fun _ => h.leaveSection) fun _ => h) fun _ => ?_
    exact .ite (fun _ => h) fun _ => h.inTable _
  · exact h.inTable _

theorem leaveRow : b.leaveRow.InFragment := (h.popTo _).pop.goto rfl

theorem inRow (p : Piece) : (b.inRow p).InFragment := by
  have hleave : (if b.inScope Name.boundsTableScope "tr" then Outcome.again b.leaveRow
      else .done b).InFragment := .ite (fun _ => h.leaveRow) fun _ => h
  unfold Builder.inRow
  dsimp only
  split
  · refine .ite (fun hname => ?_) fun _ => .ite (fun _ => hleave) fun _ => h.inTable _
    exact (((h.popTo _).insert (notMem_outerTags_of_contains hname)).goto rfl).mark
  · refine .ite (fun _ => ite h.leaveRow h) fun _ => ?_
    refine .ite (fun _ => hleave) fun _ => ?_
    refine .ite (fun _ => .ite (fun _ => hleave) fun _ => h) fun _ => ?_
    exact .ite (fun _ => h) fun _ => h.inTable _
  · exact h.inTable _

theorem leaveCell : b.leaveCell.InFragment :=
  ((h.popImplied _).popThrough _).clearToMarker.goto rfl

theorem inCell (p : Piece) : (b.inCell p).InFragment := by
  unfold Builder.inCell
  dsimp only
  split
  · exact .ite (fun _ => .ite (fun _ => h.leaveCell) fun _ => h) fun _ => h.inBody _
  · refine .ite (fun _ => ite ((h.popThroughTag _).clearToMarker.goto rfl) h) fun _ => ?_
    refine .ite (fun _ => h) fun _ => ?_
    exact .ite (fun _ => .ite (fun _ => h.leaveCell) fun _ => h) fun _ => h.inBody _
  · exact h.inBody _

/-! ## Selection lists, templates and text -/

theorem leaveSelect : b.leaveSelect.InFragment := (h.popThroughTag "select").resetMode

theorem endOption : b.endOption.InFragment := by
  unfold Builder.endOption
  exact ite h.pop h

theorem endGroup : b.endGroup.InFragment := by
  unfold Builder.endGroup
  exact ite h.pop h

theorem inSelect (p : Piece) : (b.inSelect p).InFragment := by
  unfold Builder.inSelect
  dsimp only
  split
  · exact h
  · exact h.putText _
  · exact h.putText _
  · exact h.putComment _
  · split
    · exact h.startHtml _
    · next htag => exact h.endOption.insert (by simp [htag, outerTags])
    · next htag => exact h.endOption.endGroup.insert (by simp [htag, outerTags])
    · exact h.endOption.endGroup.insertVoid _
    · exact ite h.leaveSelect h
    · exact .ite (fun _ => h.leaveSelect) fun _ => h
    · exact .ite (fun _ => h.leaveSelect) fun _ => h
    · exact .ite (fun _ => h.leaveSelect) fun _ => h
    · exact h.startInHead _
    · exact h.startInHead _
    · exact h
  · split
    · exact (ite h.endOption h).endGroup
    · exact h.endOption
    · exact ite h.leaveSelect h
    · exact h.endTemplate
    · exact h
  · exact h.inBody _

theorem inSelectInTable (p : Piece) : (b.inSelectInTable p).InFragment := by
  unfold Builder.inSelectInTable
  dsimp only
  split
  · exact .ite (fun _ => h.leaveSelect) fun _ => h.inSelect _
  · exact .ite (fun _ => .ite (fun _ => h.leaveSelect) fun _ => h) fun _ => h.inSelect _
  · exact h.inSelect _

theorem turnTemplate {mode : Insertion} (hmode : mode.isInner = true) :
    (b.turnTemplate mode).InFragment :=
  { h with
    mode := hmode
    templates := List.forall_mem_cons.2
      ⟨hmode, fun m hm => h.templates m (List.mem_of_mem_tail hm)⟩ }

theorem inTemplate (p : Piece) : (b.inTemplate p).InFragment := by
  unfold Builder.inTemplate
  split
  · exact h
  · exact h.inBody _
  · exact h.inBody _
  · exact h.inBody _
  · refine .ite (fun _ => h.startInHead _) fun _ => h.turnTemplate ?_
    split_ifs <;> rfl
  · exact ite h.endTemplate h
  · exact h.eofInTemplate

theorem inText (p : Piece) : (b.inText p).InFragment := by
  have hleft : (b.pop.goto b.resume).InFragment := h.pop.goto h.resume
  unfold Builder.inText
  split
  · exact h.putText _
  · exact h.putText _
  · exact .ite (fun _ => hleft) fun _ => hleft
  · exact hleft
  all_goals exact h

/-! ## All modes -/

theorem byMode (p : Piece) : (b.byMode p).InFragment := by
  have hmode := h.mode
  unfold Builder.byMode
  cases hb : b.mode with
  | inBody => exact h.inBody p
  | text => exact h.inText p
  | inTable => exact h.inTable p
  | inTableText => exact h.inTableText p
  | inCaption => exact h.inCaption p
  | inColumnGroup => exact h.inColumnGroup p
  | inTableBody => exact h.inTableBody p
  | inRow => exact h.inRow p
  | inCell => exact h.inCell p
  | inSelect => exact h.inSelect p
  | inSelectInTable => exact h.inSelectInTable p
  | inTemplate => exact h.inTemplate p
  | beforeHead | inHead | inHeadNoscript | afterHead | afterBody | inFrameset | afterFrameset
  | afterAfterBody | afterAfterFrameset =>
    rw [hb] at hmode
    cases hmode

/-! ## Foreign content -/

theorem breakOut (p : Piece) : (b.breakOut p).InFragment := (h.popTo _).byMode p

theorem endForeign (tag : Tag) : (b.endForeign tag).InFragment := by
  unfold Builder.endForeign
  exact .ite (fun _ => h.popThrough _) fun _ => .ite (fun _ => h.byMode _) fun _ => h

theorem inForeignContent (hspace : b.deciding.name.space ≠ .html) (p : Piece) :
    (b.inForeignContent p).InFragment := by
  unfold Builder.inForeignContent
  split
  · exact h.putText _
  · exact (h.noFramesetAfter _).putText _
  · exact (h.noFramesetAfter _).putText _
  · exact h.putComment _
  · exact .ite (fun _ => h.breakOut _) fun _ => h.insertForeign hspace _
  · exact .ite (fun _ => h.breakOut _) fun _ => h.endForeign _
  · exact h

/-! ## Pieces -/

theorem once (p : Piece) : (b.once p).InFragment := by
  unfold Builder.once
  refine .ite (fun hforeign => h.inForeignContent ?_ p) fun _ => h.byMode p
  simp only [Builder.isForeign, Bool.and_eq_true, bne_iff_ne] at hforeign
  exact hforeign.1

theorem pieceWithin (p : Piece) (n : Nat) : (Builder.pieceWithin p n b).1.InFragment := by
  induction n generalizing b with
  | zero => exact h
  | succ n ih =>
    have honce := h.once p
    unfold Builder.pieceWithin
    split
    · next b' hb => exact (congrArg Outcome.InFragment hb).mp honce
    · next s b' hb => exact (congrArg Outcome.InFragment hb).mp honce
    · next b' hb => exact ih ((congrArg Outcome.InFragment hb).mp honce)

theorem piece (p : Piece) : (b.piece p).1.InFragment := h.pieceWithin p _

end Builder.InFragment

/-! ## Tokens -/

/-- The stage of a fragment, whose builder has never left the root element. -/
def Stage.InFragment : Stage → Prop
  | opening _ => False
  | building b => b.InFragment

namespace Stage.InFragment

theorem fragment (scripting : Bool) : (Stage.fragment scripting).InFragment where
  fragment := rfl
  root := rfl
  root_made := (Dom.rooted_root id).root
  stack := nofun
  formatting := nofun
  mode := rfl
  resume := rfl
  templates := by simp [Insertion.isInner]
  written := by
    refine (Dom.writesAll_nil.concat (e := .element { tag := "html" } []) ?_).concat
      (e := .append .document (.node 0)) ?_ <;> simp [Edit.characters?]
  rooted := ⟨id, Dom.rooted_root id, List.pairwise_singleton _ _⟩

variable {s : Stage} (h : s.InFragment)
include h

theorem piece (p : Piece) : (s.piece p).1.InFragment := by
  cases s with
  | opening o => exact False.elim h
  | building b => exact Builder.InFragment.piece h p

theorem runs (ps : List Piece) : (s.runs ps).InFragment := by
  induction ps generalizing s with
  | nil => exact h
  | cons p ps ih =>
    unfold Stage.runs
    split
    · exact ih (h.piece p)
    · exact h.piece _

theorem enter (line : Nat) : (s.enter line).1.InFragment := by
  cases s with
  | opening o => exact h
  | building b => exact { Builder.InFragment.emit_line h line with }

/-- **The builder of a fragment never leaves the root element**, whatever tokens it is given. -/
theorem token (line : Nat) (t : Token) : (s.token line t).1.InFragment := by
  have henter := h.enter line
  unfold Stage.token
  dsimp only
  cases t with
  | declaration d =>
    dsimp only
    split
    · next o ho =>
      rw [ho] at henter
      exact henter.elim
    · exact henter
  | startTag tag | endTag tag => exact henter.piece _
  | comment data => exact henter.piece _
  | chars run => exact henter.runs _
  | null | eof => exact henter.piece _
  | flaw => exact henter

end Stage.InFragment

end HtmlWalk.Html
