import Mathlib.Data.List.TakeWhile
import HtmlWalk.Proofs.Html.Mirror.Piece

/-!
# Every piece is dealt with

A rule of the tree builder may change the insertion mode and leave a piece of a token to the rules
of that mode.

**Theorem (`Builder.settles_piece`).** This comes to an end. A piece is dealt with by following the
rules until one of them does not leave it to others (`Builder.Settles`), and `Builder.piece` goes
far enough for that.

The measure is `Builder.toil`, and every rule that leaves a piece to others lowers it
(`Outcome.Lowers`). There are two ways to do so:

* Most rules go on in an insertion mode that comes later for the piece (`Builder.rank`), without
  opening a selection list, a table or a template. No piece goes through more than nine modes so.
* The insertion mode is decided anew, from the open elements, when a selection list, a table or a
  template is closed. It can then be any mode, but one of these elements less is open.

What the builder keeps is needed for three of the rules: after text comes no other mode for text, a
template is not in one, and the characters that are placed in a table open again nothing but
formatting elements. All of this is in `Builder.Fit`.
-/

namespace HtmlWalk.Html

/-! ## What is left to be done -/

/-- Whether a piece is a start tag of one of those names. -/
def Piece.starts (tags : List String) : Piece → Bool
  | startTag tag => tags.contains tag.name
  | _ => false

/-- Whether a piece is an end tag of that name. -/
def Piece.ends (name : String) : Piece → Bool
  | endTag tag => tag.name == name
  | _ => false

/-- Whether a piece is a part of text. -/
def Piece.isText : Piece → Bool
  | space _ | chars _ | null => true
  | startTag _ | endTag _ | comment _ | eof => false

/-- Whether the insertion mode is decided anew after the end of an element of that name. -/
def Name.resets (n : Name) : Bool := n.isHtmlIn ["select", "table", "template"]

namespace Builder

/-- How many elements are open after whose end the insertion mode is decided anew. -/
def resets (b : Builder) : Nat := b.stack.countP (·.name.resets)

/-- How late an insertion mode comes for a piece: a rule of it leaves the piece to a mode of a lower
rank. -/
def rank (p : Piece) : Insertion → Nat
  | .text => 8
  | .inTableText => if p.isText then 0 else 8
  | .inSelectInTable => 7
  | .beforeHead | .inHeadNoscript | .inTemplate => 6
  | .inHead | .inCaption | .inCell => 5
  | .inColumnGroup => if p.starts ["col"] then 1 else 5
  | .afterHead => 4
  | .inRow => if p.starts ["th", "td"] then 2 else 4
  | .inTable => if p.starts ["td", "th", "tr"] then 4 else 2
  | .inTableBody | .afterAfterBody => 3
  | .afterBody => if p.ends "html" then 1 else 3
  | .inBody | .inSelect | .inFrameset | .afterFrameset | .afterAfterFrameset => 2

/-- How much is left to be done for a piece at most. -/
def toil (p : Piece) (b : Builder) : Nat := 9 * b.resets + rank p b.mode

theorem rank_le (p : Piece) (mode : Insertion) : rank p mode ≤ 8 := by
  cases mode <;> grind [rank]

theorem rank_le_of_isText {mode : Insertion} (h : mode.isText = false) (p : Piece) :
    rank p mode ≤ 7 := by
  cases mode <;> grind [rank, Insertion.isText]

theorem rank_le_of_mem_templateModes {mode : Insertion} (h : mode ∈ templateModes) (p : Piece) :
    rank p mode ≤ 6 := by
  simp only [templateModes, List.mem_cons, List.not_mem_nil, or_false] at h
  rcases h with rfl | rfl | rfl | rfl | rfl | rfl <;> grind [rank]

theorem toil_lt (p : Piece) (b : Builder) : b.toil p < 9 * (b.stack.length + 1) := by
  have hresets : b.resets ≤ b.stack.length := List.countP_le_length
  have hrank := rank_le p b.mode
  unfold toil
  omega

end Builder

/-- If a rule leaves the piece to others, less than that is left to be done. -/
def Outcome.Lowers (p : Piece) (n : Nat) : Outcome → Prop
  | done _ | signal _ _ => True
  | again b => b.toil p < n

theorem Outcome.Lowers.ite {p : Piece} {n : Nat} {c : Prop} [Decidable c] {x y : Outcome}
    (hx : c → x.Lowers p n) (hy : ¬c → y.Lowers p n) : (if c then x else y).Lowers p n := by
  split
  · next hc => exact hx hc
  · next hc => exact hy hc

theorem Outcome.Lowers.map {p : Piece} {n : Nat} {x : Outcome} (h : x.Lowers p n)
    {k : Builder → Builder} (hk : ∀ b, (k b).toil p = b.toil p) : (x.map k).Lowers p n := by
  cases x with
  | done | signal => trivial
  | again b => exact (hk b).trans_lt h

namespace Builder

variable {b c : Builder} {p : Piece} {mode mode' : Insertion} {n : Nat}

/-! ## Elements are closed -/

theorem resets_le_of_sublist {os : List Open} (h : os.Sublist b.stack) :
    { b with stack := os }.resets ≤ b.resets :=
  h.countP_le

theorem resets_pop_le (b : Builder) : b.pop.resets ≤ b.resets :=
  resets_le_of_sublist (List.tail_sublist _)

theorem resets_popTo_le (b : Builder) (test : Open → Bool) : (b.popTo test).resets ≤ b.resets :=
  resets_le_of_sublist (List.dropWhile_sublist _)

theorem resets_popThrough_le (b : Builder) (test : Open → Bool) :
    (b.popThrough test).resets ≤ b.resets :=
  (resets_pop_le (b.popTo test)).trans (b.resets_popTo_le test)

theorem resets_popImplied_le (b : Builder) (test : Name → Bool) :
    (b.popImplied test).resets ≤ b.resets :=
  resets_le_of_sublist (List.dropWhile_sublist _)

/-- An element in scope is open. -/
theorem hasOpen_of_inScope {bound : Name → Bool} {tag : String} (h : b.inScope bound tag = true) :
    b.hasOpen tag = true := by
  have hany : ∀ os : List Open, findsInScope bound (·.name.isHtml tag) os = true →
      os.any (·.name.isHtml tag) = true := by
    intro os
    induction os with
    | nil => exact nofun
    | cons o os ih =>
      rw [findsInScope, List.any_cons, Bool.or_eq_true, Bool.or_eq_true, Bool.and_eq_true]
      exact Or.imp_right fun h => ih h.2
  exact hany b.opens h

/-- An open element is not the root unless it has its tag. -/
theorem exists_mem_stack (h : b.Fit) {tag : String} (htag : tag ≠ "html")
    (hopen : b.hasOpen tag = true) : ∃ o ∈ b.stack, o.name.isHtml tag = true := by
  obtain ⟨o, ho, hname⟩ := List.any_eq_true.1 hopen
  rcases List.mem_append.1 ho with ho | ho
  · exact ⟨o, ho, hname⟩
  · rw [List.mem_singleton.1 ho, h.root_name] at hname
    simp [Name.isHtml, htag.symm] at hname

/-- Closing a selection list, a table or a template makes one less of them. -/
theorem resets_popThroughTag_lt (h : b.Fit) {tag : String} (htag : Name.resets { tag } = true)
    (hopen : b.hasOpen tag = true) : (b.popThroughTag tag).resets < b.resets := by
  have hhtml : tag ≠ "html" := by
    rintro rfl
    cases htag
  obtain ⟨o, ho, hname⟩ := exists_mem_stack h hhtml hopen
  have hle := b.resets_popTo_le (·.name.isHtml tag)
  unfold popTo at hle
  unfold popThroughTag popThrough
  cases hdrop : b.stack.dropWhile (!·.name.isHtml tag) with
  | nil =>
    have hnone := List.dropWhile_eq_nil_iff.1 hdrop o ho
    simp [hname] at hnone
  | cons x rest =>
    have hx := List.head?_dropWhile_not (!·.name.isHtml tag) b.stack
    rw [hdrop] at hx hle
    have hresets : x.name.resets = true := by
      simp_all [Name.isHtml, Name.resets, Name.isHtmlIn]
    refine Nat.lt_of_lt_of_le ?_ hle
    have hcount : (x :: rest).countP (fun o => o.name.resets) =
        rest.countP (fun o => o.name.resets) + 1 := List.countP_cons_of_pos hresets
    exact (Nat.lt_succ_self _).trans_eq hcount.symm

/-! ## Elements are opened -/

theorem stack_insertOpen (b : Builder) (name : Name) (attrs : List Attribute) :
    (b.insertOpen name attrs).stack = b.nextOpen name attrs :: b.stack := by
  unfold insertOpen insertClosed put
  rw [putIn_eq]
  rfl

theorem resets_insertOpen {name : Name} (h : name.resets = false) (attrs : List Attribute) :
    (b.insertOpen name attrs).resets = b.resets := by
  have hcount : (b.nextOpen name attrs :: b.stack).countP (fun o => o.name.resets) =
      b.stack.countP (fun o => o.name.resets) := List.countP_cons_of_neg (by simp [nextOpen, h])
  rw [resets, stack_insertOpen, hcount, resets]

theorem resets_eq_false_of_mem {tag : String} (h : tag ∈ allFormattingTags) :
    Name.resets { tag } = false := by
  have hall : ∀ tag ∈ allFormattingTags, Name.resets { tag } = false := by decide
  exact hall tag h

/-- Formatting elements that are opened again count for nothing. -/
theorem resets_reopenFormatting (h : b.Fit) : b.reopenFormatting.resets = b.resets := by
  have hlost : ∀ entry ∈ b.formatting.takeWhile (!b.isSettled ·), ∀ tag ∈ entry.tag?,
      tag.name ∈ allFormattingTags := by
    intro entry hentry tag htag
    cases entry with
    | marker => cases htag
    | element id t =>
      obtain rfl := Option.some.inj htag
      exact (h.formatting id t ((List.takeWhile_prefix _).subset hentry)).2
  unfold reopenFormatting
  dsimp only
  generalize b.formatting.takeWhile (!b.isSettled ·) = lost at hlost ⊢
  induction lost with
  | nil => rfl
  | cons entry lost ih =>
    rw [List.foldr_cons, ← ih fun x hx => hlost x (List.mem_cons_of_mem _ hx)]
    cases entry with
    | marker => rfl
    | element id tag =>
      have htag := hlost _ List.mem_cons_self tag rfl
      exact resets_insertOpen (resets_eq_false_of_mem htag) tag.attrs

theorem resets_putText (b : Builder) (run : List Char) : (b.putText run).resets = b.resets := by
  rw [putText_eq]
  rfl

theorem resets_charsInBody (h : b.Fit) (run : List Char) :
    (b.charsInBody run).resets = b.resets := by
  unfold charsInBody
  rw [resets_putText, ← resets_reopenFormatting h]
  unfold noFramesetAfter
  split <;> rfl

/-- Characters that are placed in a table count for nothing. -/
theorem resets_placeTableText (h : b.Mirrored b) : b.placeTableText.resets = b.resets := by
  have hbody : ∀ (runs : List (List Char)) {c : Builder}, c.Mirrored c →
      (runs.foldl charsInBody c).resets = c.resets := by
    intro runs
    induction runs with
    | nil => exact fun _ => rfl
    | cons run runs ih =>
      rintro c ⟨f, hc⟩
      exact (ih ⟨id, (hc.charsInBody run).left⟩).trans (resets_charsInBody hc.fit run)
  have hput : ∀ (runs : List (List Char)) (c : Builder),
      (runs.foldl putText c).resets = c.resets := by
    intro runs
    induction runs with
    | nil => exact fun _ => rfl
    | cons run runs ih => exact fun c => (ih _).trans (resets_putText c run)
  obtain ⟨f, h⟩ := h
  unfold placeTableText
  dsimp only
  split
  · exact hbody _ ⟨f, (h.setTableText .nil).setFostering true⟩
  · exact hput _ _

/-! ## Ways to lower what is left -/

/-- The piece is left to a mode that comes later. -/
theorem lowers_goto (hn : 9 * b.resets + rank p mode ≤ n) (hc : c.resets ≤ b.resets)
    (hrank : rank p mode' < rank p mode) : (Outcome.again (c.goto mode')).Lowers p n := by
  show 9 * c.resets + rank p mode' < n
  omega

/-- The piece is left to another mode after an element has been closed. -/
theorem lowers_of_resets_lt (hn : 9 * b.resets + rank p mode ≤ n) (hc : c.resets < b.resets) :
    (Outcome.again c).Lowers p n := by
  have hrank := rank_le p c.mode
  show 9 * c.resets + rank p c.mode < n
  omega

/-- The rules of another mode hold, which does not come earlier. -/
theorem le_of_rank_le (hn : 9 * b.resets + rank p mode ≤ n) (hrank : rank p mode' ≤ rank p mode) :
    9 * b.resets + rank p mode' ≤ n :=
  (Nat.add_le_add_left hrank _).trans hn

/-! ## The head and the body -/

theorem lowers_startInHead (b : Builder) (tag : Tag) : (b.startInHead tag).Lowers p n := by
  unfold startInHead
  split <;> trivial

theorem resets_leaveTemplate_lt (h : b.Fit) (hopen : b.hasOpen "template" = true) :
    b.leaveTemplate.resets < b.resets :=
  resets_popThroughTag_lt h rfl hopen

theorem lowers_eofInTemplate (h : b.Fit) (hn : 9 * b.resets + rank p mode ≤ n) :
    b.eofInTemplate.Lowers p n :=
  .ite (fun hopen => lowers_of_resets_lt hn (resets_leaveTemplate_lt h hopen)) fun _ => trivial

theorem lowers_beforeHead (hn : 9 * b.resets + rank p .beforeHead ≤ n) :
    (b.beforeHead p).Lowers p n := by
  have hopen : (Outcome.again (beforeHead.open_ b { name := "head" })).Lowers p n :=
    lowers_goto (c := { b.insert { name := "head" } with head := some b.nextId }) hn
      (resets_insertOpen rfl []).le (by simp [rank])
  unfold beforeHead
  split
  · trivial
  · trivial
  · exact .ite (fun _ => trivial) fun _ => .ite (fun _ => trivial) fun _ => hopen
  · exact .ite (fun _ => hopen) fun _ => trivial
  all_goals exact hopen

theorem lowers_inHead (hn : 9 * b.resets + rank p .inHead ≤ n) : (b.inHead p).Lowers p n := by
  have hleave : (Outcome.again (b.pop.goto .afterHead)).Lowers p n :=
    lowers_goto hn b.resets_pop_le (by simp [rank])
  unfold inHead
  split
  · trivial
  · trivial
  · refine .ite (fun _ => trivial) fun _ => ?_
    refine .ite (fun _ => lowers_startInHead b _) fun _ => ?_
    refine .ite (fun _ => .ite (fun _ => trivial) fun _ => trivial) fun _ => ?_
    exact .ite (fun _ => trivial) fun _ => hleave
  · split
    · trivial
    · trivial
    · exact hleave
    · exact hleave
    · exact hleave
    · trivial
  all_goals exact hleave

theorem lowers_inHeadNoscript (hn : 9 * b.resets + rank p .inHeadNoscript ≤ n) :
    (b.inHeadNoscript p).Lowers p n := by
  have hleave : (Outcome.again (b.pop.goto .inHead)).Lowers p n :=
    lowers_goto hn b.resets_pop_le (by simp [rank])
  unfold inHeadNoscript
  split
  · trivial
  · trivial
  · refine .ite (fun _ => trivial) fun _ => ?_
    refine .ite (fun _ => lowers_startInHead b _) fun _ => ?_
    exact .ite (fun _ => trivial) fun _ => hleave
  · split
    · trivial
    · exact hleave
    · trivial
  all_goals exact hleave

theorem lowers_afterHead (hn : 9 * b.resets + rank p .afterHead ≤ n) :
    (b.afterHead p).Lowers p n := by
  have hopen : (Outcome.again ((b.insertImplied "body").goto .inBody)).Lowers p n :=
    lowers_goto hn (resets_insertOpen rfl []).le (by simp [rank])
  unfold afterHead
  split
  · trivial
  · trivial
  · refine .ite (fun _ => trivial) fun _ => .ite (fun _ => trivial) fun _ => ?_
    refine .ite (fun _ => trivial) fun _ => .ite (fun _ => ?_) fun _ => ?_
    · split
      · unfold startInHead
        split <;> trivial
      · exact lowers_startInHead b _
    · exact .ite (fun _ => trivial) fun _ => hopen
  · split
    · trivial
    · exact hopen
    · exact hopen
    · exact hopen
    · trivial
  all_goals exact hopen

/-- A start tag in the body is dealt with at once. -/
theorem lowers_startInBody (b : Builder) (tag : Tag) : (b.startInBody tag).Lowers p n := by
  unfold startInBody
  dsimp only
  generalize (if tag.name == "image" then { tag with name := "img" } else tag) = tag
  repeat' refine Outcome.Lowers.ite (fun _ => ?_) fun _ => ?_
  all_goals first | trivial | exact lowers_startInHead b tag

theorem lowers_endInBody {tag : Tag} (hn : 9 * b.resets + rank (.endTag tag) .inBody ≤ n) :
    (b.endInBody tag).Lowers (.endTag tag) n := by
  unfold endInBody
  refine .ite (fun _ => trivial) fun _ => .ite (fun _ => trivial) fun _ => ?_
  refine .ite (fun hname => .ite (fun _ => lowers_goto hn le_rfl ?_) fun _ => trivial) fun _ => ?_
  · simp [rank, Piece.ends, hname]
  · repeat' refine .ite (fun _ => ?_) fun _ => ?_
    all_goals trivial

theorem lowers_inBody (h : b.Fit) (hn : 9 * b.resets + rank p .inBody ≤ n) :
    (b.inBody p).Lowers p n := by
  unfold inBody
  split
  · trivial
  · trivial
  · trivial
  · trivial
  · exact lowers_startInBody b _
  · exact lowers_endInBody hn
  · exact .ite (fun _ => trivial) fun _ => lowers_eofInTemplate h hn

/-! ## Tables -/

theorem lowers_fosterInBody (h : b.Fit) (hn : 9 * b.resets + rank p .inBody ≤ n) :
    (b.fosterInBody p).Lowers p n :=
  (lowers_inBody (b := { b with fostering := true }) { h with } hn).map fun _ => rfl

theorem lowers_charsInTable (h : b.Fit) (hp : p.isText = true)
    (hn : 9 * b.resets + rank p .inBody ≤ n) : (b.charsInTable p).Lowers p n := by
  refine .ite (fun _ => ?_) fun _ => lowers_fosterInBody h hn
  exact lowers_goto (c := { b with resume := b.mode }) hn le_rfl (by simp [rank, hp])

theorem resets_endTable_lt (h : b.Fit) (hopen : b.inScope Name.boundsTableScope "table" = true) :
    b.endTable.resets < b.resets :=
  resets_popThroughTag_lt h rfl (hasOpen_of_inScope hopen)

theorem rank_inBody_le_inTable (p : Piece) : rank p .inBody ≤ rank p .inTable := by
  grind [rank]

theorem lowers_startInTable (h : b.Fit) {tag : Tag}
    (hn : 9 * b.resets + rank (.startTag tag) .inTable ≤ n) :
    (b.startInTable tag).Lowers (.startTag tag) n := by
  have himplied : ∀ {tag : String}, Name.resets { tag } = false →
      ((b.popTo (·.name.holdsSections)).insertImplied tag).resets ≤ b.resets := fun htag =>
    (resets_insertOpen htag []).le.trans (b.resets_popTo_le _)
  unfold startInTable
  refine .ite (fun _ => trivial) fun _ => .ite (fun _ => trivial) fun _ => ?_
  refine .ite (fun hname => lowers_goto hn (himplied rfl) ?_) fun _ => ?_
  · simp [rank, Piece.starts, beq_iff_eq.1 hname]
  refine .ite (fun _ => trivial) fun _ => ?_
  refine .ite (fun hname => lowers_goto hn (himplied rfl) ?_) fun _ => ?_
  · have hp : (Piece.startTag tag).starts ["td", "th", "tr"] = true := hname
    simp [rank, hp]
  refine .ite (fun _ => .ite (fun hopen => ?_) fun _ => trivial) fun _ => ?_
  · exact lowers_of_resets_lt hn (resets_endTable_lt h hopen)
  refine .ite (fun _ => lowers_startInHead b tag) fun _ => .ite (fun _ => trivial) fun _ => ?_
  refine .ite (fun _ => .ite (fun _ => trivial) fun _ => trivial) fun _ => ?_
  exact lowers_fosterInBody h (le_of_rank_le hn (rank_inBody_le_inTable _))

theorem lowers_inTable (h : b.Fit) (hn : 9 * b.resets + rank p .inTable ≤ n) :
    (b.inTable p).Lowers p n := by
  have hbody := le_of_rank_le hn (rank_inBody_le_inTable p)
  unfold inTable
  split
  · exact lowers_charsInTable h rfl hbody
  · exact lowers_charsInTable h rfl hbody
  · exact lowers_charsInTable h rfl hbody
  · trivial
  · exact lowers_startInTable h hn
  · refine .ite (fun _ => trivial) fun _ => .ite (fun _ => trivial) fun _ => ?_
    exact .ite (fun _ => trivial) fun _ => lowers_fosterInBody h hbody
  · exact lowers_inBody h hbody

theorem lowers_inTableText (h : b.Mirrored b) (hn : 9 * b.resets + rank p .inTableText ≤ n) :
    (b.inTableText p).Lowers p n := by
  have hplace : p.isText = false →
      (Outcome.again (b.placeTableText.goto b.resume)).Lowers p n := by
    intro hp
    have hrank : rank p .inTableText = 8 := by simp [rank, hp]
    refine lowers_goto hn (resets_placeTableText h).le ?_
    rw [hrank]
    exact (rank_le_of_isText h.fit.resume p).trans_lt (by decide)
  unfold inTableText
  split
  · trivial
  · trivial
  · trivial
  · next hnull hspace hchars =>
    refine hplace ?_
    cases p <;> simp_all [Piece.isText]

theorem lowers_inCaption (h : b.Fit) (hn : 9 * b.resets + rank p .inCaption ≤ n) :
    (b.inCaption p).Lowers p n := by
  have hbody : (b.inBody p).Lowers p n := lowers_inBody h (le_of_rank_le hn (by simp [rank]))
  have hleave : (inCaption.leave b).Lowers p n := by
    refine .ite (fun _ => ?_) fun _ => trivial
    exact lowers_goto hn (b.resets_popThrough_le _) (by grind [rank])
  unfold inCaption
  split
  · exact .ite (fun _ => hleave) fun _ => hbody
  · split
    · exact .ite (fun _ => trivial) fun _ => trivial
    · exact hleave
    · exact .ite (fun _ => trivial) fun _ => hbody
  · exact hbody

theorem lowers_inColumnGroup (h : b.Fit) (hn : 9 * b.resets + rank p .inColumnGroup ≤ n) :
    (b.inColumnGroup p).Lowers p n := by
  have hleave : p.starts ["col"] = false → (inColumnGroup.leave b).Lowers p n := by
    intro hp
    refine .ite (fun _ => lowers_goto hn b.resets_pop_le ?_) fun _ => trivial
    grind [rank]
  unfold inColumnGroup
  split
  · trivial
  · trivial
  · split
    · trivial
    · trivial
    · exact lowers_startInHead b _
    · next hcol _ => exact hleave (by simp_all [Piece.starts])
  · split
    · trivial
    · trivial
    · trivial
    · exact hleave rfl
  · exact lowers_inBody h (le_of_rank_le hn (by simp [rank, Piece.starts]))
  · exact hleave rfl
  · exact hleave rfl

theorem lowers_inTableBody (h : b.Fit) (hn : 9 * b.resets + rank p .inTableBody ≤ n) :
    (b.inTableBody p).Lowers p n := by
  have hleave : p.starts ["td", "th", "tr"] = false →
      (if b.hasInScope Name.boundsTableScope (·.name.isHtmlIn ["table", "tbody", "tfoot"]) then
        Outcome.again b.leaveSection else .done b).Lowers p n := by
    intro hp
    refine .ite (fun _ => ?_) fun _ => trivial
    exact lowers_goto hn ((resets_pop_le _).trans (b.resets_popTo_le _)) (by simp [rank, hp])
  have htable : p.starts ["td", "th", "tr"] = false → (b.inTable p).Lowers p n := fun hp =>
    lowers_inTable h (le_of_rank_le hn (by simp [rank, hp]))
  unfold inTableBody
  dsimp only
  split
  · next tag =>
    refine .ite (fun _ => trivial) fun hrow => .ite (fun hcell => ?_) fun hcell => ?_
    · have hp : (Piece.startTag tag).starts ["th", "td"] = true := hcell
      refine lowers_goto hn ((resets_insertOpen rfl []).le.trans (b.resets_popTo_le _)) ?_
      simp [rank, hp]
    · have hp : (Piece.startTag tag).starts ["td", "th", "tr"] = false := by
        simp_all [Piece.starts]
      exact .ite (fun _ => hleave hp) fun _ => htable hp
  · refine .ite (fun _ => trivial) fun _ => .ite (fun _ => hleave rfl) fun _ => ?_
    exact .ite (fun _ => trivial) fun _ => htable rfl
  · next hstart _ => exact htable (by cases p <;> simp_all [Piece.starts])

theorem lowers_inRow (h : b.Fit) (hn : 9 * b.resets + rank p .inRow ≤ n) :
    (b.inRow p).Lowers p n := by
  have hleave : p.starts ["th", "td"] = false →
      (if b.inScope Name.boundsTableScope "tr" then Outcome.again b.leaveRow
        else .done b).Lowers p n := by
    intro hp
    refine .ite (fun _ => ?_) fun _ => trivial
    exact lowers_goto hn ((resets_pop_le _).trans (b.resets_popTo_le _)) (by simp [rank, hp])
  have htable : p.starts ["th", "td"] = false → (b.inTable p).Lowers p n := fun hp =>
    lowers_inTable h (le_of_rank_le hn (by grind [rank]))
  unfold inRow
  dsimp only
  split
  · refine .ite (fun _ => trivial) fun hcell => ?_
    have hp := Bool.eq_false_iff.2 hcell
    exact .ite (fun _ => hleave hp) fun _ => htable hp
  · refine .ite (fun _ => trivial) fun _ => .ite (fun _ => hleave rfl) fun _ => ?_
    refine .ite (fun _ => .ite (fun _ => hleave rfl) fun _ => trivial) fun _ => ?_
    exact .ite (fun _ => trivial) fun _ => htable rfl
  · next hstart _ => exact htable (by cases p <;> simp_all [Piece.starts])

theorem lowers_inCell (h : b.Fit) (hn : 9 * b.resets + rank p .inCell ≤ n) :
    (b.inCell p).Lowers p n := by
  have hbody : (b.inBody p).Lowers p n := lowers_inBody h (le_of_rank_le hn (by simp [rank]))
  have hleave : (Outcome.again b.leaveCell).Lowers p n :=
    lowers_goto hn ((resets_popThrough_le _ _).trans (b.resets_popImplied_le _)) (by grind [rank])
  unfold inCell
  dsimp only
  split
  · exact .ite (fun _ => .ite (fun _ => hleave) fun _ => trivial) fun _ => hbody
  · refine .ite (fun _ => trivial) fun _ => .ite (fun _ => trivial) fun _ => ?_
    exact .ite (fun _ => .ite (fun _ => hleave) fun _ => trivial) fun _ => hbody
  · exact hbody

/-! ## Selection lists, templates and text -/

theorem lowers_inSelect (h : b.Fit) (hn : 9 * b.resets + rank p .inSelect ≤ n) :
    (b.inSelect p).Lowers p n := by
  have hleave : (if b.inScope Name.boundsSelectScope "select" then Outcome.again b.leaveSelect
      else .done b).Lowers p n :=
    .ite (fun hopen => lowers_of_resets_lt hn
      (resets_popThroughTag_lt h rfl (hasOpen_of_inScope hopen))) fun _ => trivial
  unfold inSelect
  dsimp only
  split
  · trivial
  · trivial
  · trivial
  · trivial
  · split
    · trivial
    · trivial
    · trivial
    · trivial
    · trivial
    · exact hleave
    · exact hleave
    · exact hleave
    · exact lowers_startInHead b _
    · exact lowers_startInHead b _
    · trivial
  · split <;> trivial
  · exact lowers_inBody h hn

/-- Where no open element decides the insertion mode, it is none in which a list is left. -/
theorem rank_bottom_le (h : b.Fit) (p : Piece) :
    rank p (if b.fragment then b.templates.headD .inBody
      else if b.head.isNone then .beforeHead else .afterHead) ≤ 6 := by
  split_ifs
  · have htemplates := h.templates
    cases hmodes : b.templates with
    | nil => simp [rank]
    | cons mode modes =>
      exact rank_le_of_mem_templateModes (htemplates mode (by simp [hmodes])) p
  all_goals simp [rank]

/-- A list is left in a table, where it has not been asked whether one is open. Without one all
elements are closed. -/
theorem lowers_leaveSelect (h : b.Fit) (hn : 9 * b.resets + rank p .inSelectInTable ≤ n) :
    (Outcome.again b.leaveSelect).Lowers p n := by
  by_cases hopen : b.hasOpen "select" = true
  · exact lowers_of_resets_lt hn (resets_popThroughTag_lt h rfl hopen)
  · have hclosed : (b.popThroughTag "select").stack = [] := by
      have hdrop : b.stack.dropWhile (!·.name.isHtml "select") = [] := by
        refine List.dropWhile_eq_nil_iff.2 fun o ho => ?_
        by_contra hname
        exact hopen (List.any_eq_true.2 ⟨o, List.mem_append_left _ ho, by simpa using hname⟩)
      rw [popThroughTag, popThrough, hdrop, List.tail_nil]
    refine lowers_goto hn (b.resets_popThrough_le _) ?_
    rw [hclosed]
    exact (rank_bottom_le h p).trans_lt (by simp [rank])

theorem lowers_inSelectInTable (h : b.Fit) (hn : 9 * b.resets + rank p .inSelectInTable ≤ n) :
    (b.inSelectInTable p).Lowers p n := by
  have hleave := lowers_leaveSelect h hn
  have hselect : (b.inSelect p).Lowers p n := lowers_inSelect h (le_of_rank_le hn (by simp [rank]))
  unfold inSelectInTable
  dsimp only
  split
  · exact .ite (fun _ => hleave) fun _ => hselect
  · exact .ite (fun _ => .ite (fun _ => hleave) fun _ => trivial) fun _ => hselect
  · exact hselect

theorem lowers_inTemplate (h : b.Fit) (hn : 9 * b.resets + rank p .inTemplate ≤ n) :
    (b.inTemplate p).Lowers p n := by
  have hbody : (b.inBody p).Lowers p n := lowers_inBody h (le_of_rank_le hn (by simp [rank]))
  unfold inTemplate
  split
  · trivial
  · exact hbody
  · exact hbody
  · exact hbody
  · refine .ite (fun _ => lowers_startInHead b _) fun _ => ?_
    refine lowers_goto (c := { b with templates := _ }) hn le_rfl ?_
    split_ifs <;> grind [rank, Piece.starts]
  · trivial
  · exact lowers_eofInTemplate h hn

theorem lowers_inText (h : b.Fit) (hn : 9 * b.resets + rank p .text ≤ n) :
    (b.inText p).Lowers p n := by
  unfold inText
  split
  · trivial
  · trivial
  · exact .ite (fun _ => trivial) fun _ => trivial
  · exact lowers_goto hn b.resets_pop_le ((rank_le_of_isText h.resume _).trans_lt (by simp [rank]))
  all_goals trivial

/-! ## After the body, and framesets -/

theorem lowers_afterBody (h : b.Fit) (hn : 9 * b.resets + rank p .afterBody ≤ n) :
    (b.afterBody p).Lowers p n := by
  have hback : p.ends "html" = false → (afterBody.back b).Lowers p n := fun hp =>
    lowers_goto hn le_rfl (by simp [rank, hp])
  unfold afterBody
  split
  · exact lowers_inBody h (le_of_rank_le hn (by simp [rank, Piece.ends]))
  · trivial
  · exact .ite (fun _ => trivial) fun _ => hback rfl
  · exact .ite (fun _ => trivial) fun hname => hback (Bool.eq_false_iff.2 hname)
  · trivial
  · exact hback rfl
  · exact hback rfl

theorem lowers_afterAfterBody (h : b.Fit) (hn : 9 * b.resets + rank p .afterAfterBody ≤ n) :
    (b.afterAfterBody p).Lowers p n := by
  have hback : (afterAfterBody.back b).Lowers p n := lowers_goto hn le_rfl (by simp [rank])
  unfold afterAfterBody
  split
  · exact lowers_inBody h (le_of_rank_le hn (by simp [rank]))
  · trivial
  · exact .ite (fun _ => trivial) fun _ => hback
  · trivial
  all_goals exact hback

theorem lowers_inFrameset (b : Builder) (p : Piece) : (b.inFrameset p).Lowers p n := by
  unfold inFrameset
  split
  · trivial
  · trivial
  · split
    · trivial
    · trivial
    · trivial
    · exact lowers_startInHead b _
    · trivial
  · exact .ite (fun _ => trivial) fun _ => trivial
  all_goals trivial

theorem lowers_afterFrameset (b : Builder) (p : Piece) : (b.afterFrameset p).Lowers p n := by
  unfold afterFrameset
  split
  · trivial
  · trivial
  · split
    · trivial
    · exact lowers_startInHead b _
    · trivial
  all_goals trivial

theorem lowers_afterAfterFrameset (h : b.Fit)
    (hn : 9 * b.resets + rank p .afterAfterFrameset ≤ n) :
    (b.afterAfterFrameset p).Lowers p n := by
  unfold afterAfterFrameset
  split
  · exact lowers_inBody h hn
  · trivial
  · split
    · trivial
    · exact lowers_startInHead b _
    · trivial
  all_goals trivial

/-! ## All rules -/

theorem lowers_byMode (h : b.Mirrored b) (hn : b.toil p ≤ n) : (b.byMode p).Lowers p n := by
  have hfit := h.fit
  unfold toil at hn
  unfold byMode
  cases hmode : b.mode <;> rw [hmode] at hn
  case beforeHead => exact lowers_beforeHead hn
  case inHead => exact lowers_inHead hn
  case inHeadNoscript => exact lowers_inHeadNoscript hn
  case afterHead => exact lowers_afterHead hn
  case inBody => exact lowers_inBody hfit hn
  case text => exact lowers_inText hfit hn
  case inTable => exact lowers_inTable hfit hn
  case inTableText => exact lowers_inTableText h hn
  case inCaption => exact lowers_inCaption hfit hn
  case inColumnGroup => exact lowers_inColumnGroup hfit hn
  case inTableBody => exact lowers_inTableBody hfit hn
  case inRow => exact lowers_inRow hfit hn
  case inCell => exact lowers_inCell hfit hn
  case inSelect => exact lowers_inSelect hfit hn
  case inSelectInTable => exact lowers_inSelectInTable hfit hn
  case inTemplate => exact lowers_inTemplate hfit hn
  case afterBody => exact lowers_afterBody hfit hn
  case inFrameset => exact lowers_inFrameset b p
  case afterFrameset => exact lowers_afterFrameset b p
  case afterAfterBody => exact lowers_afterAfterBody hfit hn
  case afterAfterFrameset => exact lowers_afterAfterFrameset hfit hn

/-- **A rule that leaves a piece to others lowers what is left to be done.** -/
theorem lowers_once (h : b.Mirrored b) (p : Piece) : (b.once p).Lowers p (b.toil p) := by
  have hbreak : (b.breakOut p).Lowers p (b.toil p) := by
    obtain ⟨f, h⟩ := h
    have hpopped := h.popToName fun n => n.space == .html || n.isMathText || n.isDrawingText
    exact lowers_byMode ⟨f, hpopped⟩
      (Nat.add_le_add_right (Nat.mul_le_mul_left 9 (b.resets_popTo_le _)) _)
  unfold once
  split
  · unfold inForeignContent
    dsimp only
    split
    · trivial
    · trivial
    · trivial
    · trivial
    · exact .ite (fun _ => hbreak) fun _ => trivial
    · refine .ite (fun _ => hbreak) fun _ => ?_
      refine .ite (fun _ => trivial) fun _ => .ite (fun _ => ?_) fun _ => trivial
      exact lowers_byMode h le_rfl
    · trivial
  · exact lowers_byMode h le_rfl

/-! ## To the end -/

/-- What comes of a piece when the rules are followed until one of them does not leave it to
others. -/
inductive Settles (p : Piece) : Builder → Builder × Option Signal → Prop
  | done {b c : Builder} (h : b.once p = .done c) : Settles p b (c, none)
  | signal {b c : Builder} {s : Signal} (h : b.once p = .signal s c) : Settles p b (c, some s)
  | again {b c : Builder} {r : Builder × Option Signal} (h : b.once p = .again c)
    (hc : Settles p c r) : Settles p b r

theorem Settles.unique {r r' : Builder × Option Signal} (h : Settles p b r) (h' : Settles p b r') :
    r' = r := by
  induction h with
  | done h => cases h' <;> simp_all
  | signal h => cases h' <;> simp_all
  | again h _ ih =>
    cases h' with
    | done h' => simp_all
    | signal h' => simp_all
    | again h' hc' =>
      obtain rfl := Outcome.again.inj (h.symm.trans h')
      exact ih hc'

theorem settles_pieceWithin (h : b.Mirrored b) (hn : b.toil p < n) :
    Settles p b (pieceWithin p n b) := by
  induction n generalizing b with
  | zero => exact absurd hn (Nat.not_lt_zero _)
  | succ n ih =>
    have hlowers := lowers_once h p
    obtain ⟨f, h⟩ := h
    obtain ⟨g, honce⟩ := h.left.once p
    unfold pieceWithin
    cases hrule : b.once p with
    | done c => exact .done hrule
    | signal s c => exact .signal hrule
    | again c =>
      rw [hrule] at honce hlowers
      cases honce with
      | again hc => exact .again hrule (ih ⟨g, hc⟩ (hlowers.trans_le (Nat.le_of_lt_succ hn)))

/-- **A piece is always dealt with.** -/
theorem settles_piece (h : b.Mirrored b) (p : Piece) : Settles p b (b.piece p) :=
  settles_pieceWithin h (b.toil_lt p)

theorem Settles.piece_eq {r : Builder × Option Signal} (hr : Settles p b r) (h : b.Mirrored b) :
    b.piece p = r :=
  hr.unique (settles_piece h p)

end Builder

end HtmlWalk.Html
