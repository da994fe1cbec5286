import HtmlWalk.Proofs.Html.Mirror.Formatting

/-!
# Rules and builders that mirror each other

Two builders that mirror each other deal with a piece of a token alike: the outcomes of each rule
mirror each other too (`Outcome.Mirrors`). The lemmas follow the rules: those of the head and of the
body here, those of the other insertion modes in `HtmlWalk.Proofs.Html.Mirror.Piece`.
-/

namespace HtmlWalk.Html

/-- Two outcomes say the same, in builders that mirror each other. -/
inductive Outcome.Mirrors (f : Nat → Nat) : Outcome → Outcome → Prop
  | done {b b' : Builder} (h : b.Mirrors f b') : Outcome.Mirrors f (.done b) (.done b')
  | signal {b b' : Builder} (s : Signal) (h : b.Mirrors f b') :
    Outcome.Mirrors f (.signal s b) (.signal s b')
  | again {b b' : Builder} (h : b.Mirrors f b') : Outcome.Mirrors f (.again b) (.again b')

theorem Outcome.Mirrors.map {f : Nat → Nat} {o o' : Outcome} (h : o.Mirrors f o')
    {k k' : Builder → Builder} (hk : ∀ {b b' : Builder}, b.Mirrors f b' → (k b).Mirrors f (k' b')) :
    (o.map k).Mirrors f (o'.map k') := by
  cases h with
  | done h => exact .done (hk h)
  | signal s h => exact .signal s (hk h)
  | again h => exact .again (hk h)

/-- Both builders take the same way. -/
theorem Outcome.Mirrors.ite {f : Nat → Nat} {c : Prop} [Decidable c] {o₁ o₂ o₁' o₂' : Outcome}
    (h₁ : c → o₁.Mirrors f o₁') (h₂ : ¬c → o₂.Mirrors f o₂') :
    (if c then o₁ else o₂).Mirrors f (if c then o₁' else o₂') := by
  split
  · next hc => exact h₁ hc
  · next hc => exact h₂ hc

/-- Both builders take the same way. -/
theorem Builder.Mirrors.ite {f : Nat → Nat} {c : Prop} [Decidable c] {b₁ b₂ b₁' b₂' : Builder}
    (h₁ : b₁.Mirrors f b₁') (h₂ : b₂.Mirrors f b₂') :
    (if c then b₁ else b₂).Mirrors f (if c then b₁' else b₂') := by
  split
  · exact h₁
  · exact h₂

namespace Builder.Mirrors

variable {f : Nat → Nat} {b b' : Builder} (h : Mirrors f b b')
include h

/-! ## The head -/

theorem insertRaw (hmode : b.mode.isText = false) (tag : Tag) (kind : Raw) :
    (b.insertRaw tag kind).Mirrors f (b'.insertRaw tag kind) := by
  rw [← (adds_insertOpen b { tag := tag.name } tag.attrs).mode] at hmode
  exact .signal _ { h.insert tag with
    mode := rfl
    resume := (h.insert tag).mode
    fit := { (h.insert tag).fit with resume := hmode } }

theorem addAttrs {o : Open} (ho : o.id < b.edits.size) (attrs : List Attribute) :
    Mirrors f (b.emit (.addAttrs o.id attrs)) (b'.emit (.addAttrs (o.rename f).id attrs)) :=
  h.emit (e := .addAttrs o.id attrs) ho

theorem startHtml (tag : Tag) : Mirrors f (b.startHtml tag) (b'.startHtml tag) := by
  unfold Builder.startHtml
  rw [h.hasOpen, h.root]
  split
  · exact h
  · exact h.addAttrs h.fit.root tag.attrs

theorem openTemplate (tag : Tag) : Mirrors f (b.openTemplate tag) (b'.openTemplate tag) := by
  have hmarked := (h.insert tag).mark.noFrameset
  exact { hmarked with
    mode := rfl
    templates := congrArg (Insertion.inTemplate :: ·) hmarked.templates
    fit := { hmarked.fit with
      templates := List.forall_mem_cons.2 ⟨List.mem_cons_self, hmarked.fit.templates⟩ } }

theorem leaveTemplate : Mirrors f b.leaveTemplate b'.leaveTemplate := by
  have hcleared := (h.popThroughTag "template").clearToMarker
  exact Mirrors.resetMode { hcleared with
    templates := congrArg List.tail hcleared.templates
    fit := { hcleared.fit with
      templates := fun mode hmode => hcleared.fit.templates mode (List.mem_of_mem_tail hmode) } }

theorem endTemplate : Mirrors f b.endTemplate b'.endTemplate := by
  unfold Builder.endTemplate
  rw [h.hasOpen]
  split
  · exact h.leaveTemplate
  · exact h

theorem eofInTemplate : b.eofInTemplate.Mirrors f b'.eofInTemplate := by
  unfold Builder.eofInTemplate
  rw [h.hasOpen]
  split
  · exact .again h.leaveTemplate
  · exact .done h

theorem startInHead (hmode : b.mode.isText = false) (tag : Tag) :
    (b.startInHead tag).Mirrors f (b'.startInHead tag) := by
  unfold Builder.startInHead
  split
  · exact h.insertRaw hmode tag _
  · exact h.insertRaw hmode tag _
  · exact h.insertRaw hmode tag _
  · exact h.insertRaw hmode tag _
  · exact .done (h.openTemplate tag)
  · exact .done (h.insertVoid tag)

theorem inHead (hmode : b.mode.isText = false) (p : Piece) :
    (b.inHead p).Mirrors f (b'.inHead p) := by
  unfold Builder.inHead
  rw [h.scripting]
  split
  · exact .done (h.putText _)
  · exact .done (h.putComment _)
  · next tag =>
    split_ifs
    · exact .done (h.startHtml tag)
    · exact h.startInHead hmode tag
    · exact h.insertRaw hmode tag _
    · exact .done ((h.insert tag).goto _)
    · exact .done h
    · exact .again (h.pop.goto _)
  · split
    · exact .done (h.pop.goto _)
    · exact .done h.endTemplate
    · exact .again (h.pop.goto _)
    · exact .again (h.pop.goto _)
    · exact .again (h.pop.goto _)
    · exact .done h
  all_goals exact .again (h.pop.goto _)

theorem openHead (tag : Tag) :
    Mirrors f (Builder.beforeHead.open_ b tag) (Builder.beforeHead.open_ b' tag) := by
  have hopen := h.insert tag
  have hid := hopen.fit.stack (b.nextOpen { tag := tag.name } tag.attrs) List.mem_cons_self
  exact { hopen with
    mode := rfl
    head := congrArg some h.nextId
    fit := { hopen.fit with
      head := fun id hid' => by
        obtain rfl : b.nextId = id := Option.some.inj hid'
        exact hid } }

theorem beforeHead (p : Piece) : (b.beforeHead p).Mirrors f (b'.beforeHead p) := by
  unfold Builder.beforeHead
  split
  · exact .done h
  · exact .done (h.putComment _)
  · next tag =>
    split_ifs
    · exact .done (h.startHtml tag)
    · exact .done (h.openHead tag)
    · exact .again (h.openHead _)
  · split_ifs
    · exact .again (h.openHead _)
    · exact .done h
  all_goals exact .again (h.openHead _)

theorem inHeadNoscript (hmode : b.mode.isText = false) (p : Piece) :
    (b.inHeadNoscript p).Mirrors f (b'.inHeadNoscript p) := by
  unfold Builder.inHeadNoscript
  split
  · exact h.inHead hmode _
  · exact h.inHead hmode _
  · next tag =>
    split_ifs
    · exact .done (h.startHtml tag)
    · exact h.startInHead hmode tag
    · exact .done h
    · exact .again (h.pop.goto _)
  · split
    · exact .done (h.pop.goto _)
    · exact .again (h.pop.goto _)
    · exact .done h
  all_goals exact .again (h.pop.goto _)

/-- The head is opened once more. -/
theorem reopenHead {head : NodeId} (hhead : head ∈ b.head) :
    Mirrors f { b with stack := ⟨head, { tag := "head" }, false⟩ :: b.stack }
      { b' with stack := ⟨f head, { tag := "head" }, false⟩ :: b'.stack } := by
  refine h.setStack (by rw [h.stack]; rfl) fun o ho => ?_
  rcases List.mem_cons.1 ho with rfl | ho
  · exact h.fit.head head hhead
  · exact h.fit.stack o ho

theorem afterHead (hmode : b.mode.isText = false) (p : Piece) :
    (b.afterHead p).Mirrors f (b'.afterHead p) := by
  unfold Builder.afterHead
  split
  · exact .done (h.putText _)
  · exact .done (h.putComment _)
  · next tag =>
    split_ifs
    · exact .done (h.startHtml tag)
    · exact .done ((h.insert tag).noFrameset.goto _)
    · exact .done ((h.insert tag).goto _)
    · split
      · next head hhead =>
        split
        · next head' hhead' =>
          obtain rfl : head' = f head := by simpa [hhead, hhead'] using h.head
          exact ((h.reopenHead hhead).startInHead hmode tag).map fun h => h.forget head
        · next hhead' => simp [h.head, hhead] at hhead'
      · next hhead =>
        split
        · next hhead' => simp [h.head, hhead] at hhead'
        · exact h.startInHead hmode tag
    · exact .done h
    · exact .again ((h.insertImplied _).goto _)
  · split
    · exact .done h.endTemplate
    · exact .again ((h.insertImplied _).goto _)
    · exact .again ((h.insertImplied _).goto _)
    · exact .again ((h.insertImplied _).goto _)
    · exact .done h
  all_goals exact .again ((h.insertImplied _).goto _)

/-! ## The body -/

omit h in
theorem mode_endParagraph : b.endParagraph.mode = b.mode := by
  unfold Builder.endParagraph
  split <;> rfl

theorem endParagraph : Mirrors f b.endParagraph b'.endParagraph := by
  unfold Builder.endParagraph
  rw [h.inScope]
  split
  · exact h.popThroughTag "p"
  · exact h

theorem insertFormatted (tag : Tag) : Mirrors f (b.insertFormatted tag) (b'.insertFormatted tag) :=
  h.reopenFormatting.insert tag

theorem body? : b'.body? = b.body?.map (Open.rename f) := by
  rw [Builder.body?, Builder.body?, h.stack, List.getLast?_map, Option.filter_map]
  rfl

theorem body_lt {body : Open} (hbody : b.body? = some body) : body.id < b.edits.size :=
  h.fit.stack body (List.mem_of_getLast? (Option.eq_some_of_filter_eq_some hbody))

theorem startItem (tag : Tag) (ended : List String) :
    Mirrors f (b.startItem tag ended) (b'.startItem tag ended) := by
  have hitem : ∀ os : List Open, itemToEnd? ended (os.map (Open.rename f)) =
      itemToEnd? ended os := by
    intro os
    induction os with
    | nil => rfl
    | cons o os ih => rw [List.map_cons, itemToEnd?, itemToEnd?, ih, Open.rename]
  unfold Builder.startItem
  dsimp only
  rw [h.noFrameset.stack, hitem]
  split
  · exact ((h.noFrameset.popThroughTag _).endParagraph).insert tag
  · exact h.noFrameset.endParagraph.insert tag

theorem endLink : Mirrors f b.endLink b'.endLink := by
  unfold Builder.endLink
  rw [h.find?_recentFormatting]
  cases b.recentFormatting.find? (·.tag?.any (·.name == "a")) with
  | none => exact h
  | some entry =>
    cases entry with
    | marker => exact h
    | element id tag => exact ((h.adopt "a").unformat id).forget id

theorem startBody (tag : Tag) : Mirrors f (b.startBody tag) (b'.startBody tag) := by
  unfold Builder.startBody
  rw [h.body?, h.hasOpen]
  cases hbody : b.body? with
  | none => exact h
  | some body =>
    rw [Option.map_some]
    dsimp only
    split
    · exact h
    · exact h.noFrameset.addAttrs (h.body_lt hbody) tag.attrs

theorem startFrameset (tag : Tag) : Mirrors f (b.startFrameset tag) (b'.startFrameset tag) := by
  unfold Builder.startFrameset
  rw [h.body?, h.framesetOk]
  cases hbody : b.body? with
  | none => exact h
  | some body =>
    rw [Option.map_some]
    dsimp only
    split
    · have hdetached := h.emit (e := .detach body.id) (h.body_lt hbody)
      exact ((hdetached.setStack (List.map_nil (f := Open.rename f)).symm nofun).insert tag).goto _
    · exact h

theorem setForm (form : Option NodeId) (hform : ∀ id ∈ form, id < b.edits.size) :
    Mirrors f { b with form } { b' with form := form.map f } :=
  { h with form := rfl, fit := { h.fit with form := hform } }

theorem startForm (tag : Tag) : Mirrors f (b.startForm tag) (b'.startForm tag) := by
  unfold Builder.startForm
  dsimp only
  rw [h.hasOpen, h.form, Option.isSome_map]
  split
  · exact h
  · have hopen := h.endParagraph.insert tag
    split
    · exact hopen
    · have hid := hopen.fit.stack (b.endParagraph.nextOpen { tag := tag.name } tag.attrs)
        List.mem_cons_self
      rw [h.endParagraph.nextId]
      exact hopen.setForm (some _) fun id hid' => by
        obtain rfl := Option.some.inj hid'
        exact hid

theorem endForm : Mirrors f b.endForm b'.endForm := by
  unfold Builder.endForm
  rw [h.hasOpen, h.inScope, h.form]
  split
  · split
    · exact h.popThroughTag "form"
    · exact h
  · cases hform : b.form with
    | none => exact h
    | some id =>
      have hclosed := h.setForm none nofun
      have hscope : { b' with form := none }.hasInScope Name.boundsScope (·.id == f id) =
          { b with form := none }.hasInScope Name.boundsScope (·.id == id) :=
        hclosed.hasInScope Name.boundsScope (hclosed.rename_id_beq id)
      rw [Option.map_some]
      dsimp only
      rw [hscope]
      split
      · exact (hclosed.popImplied _).forget id
      · exact hclosed

theorem startSelect (tag : Tag) : Mirrors f (b.startSelect tag) (b'.startSelect tag) := by
  have hopen := (h.insertFormatted tag).noFrameset
  unfold Builder.startSelect
  dsimp only
  rw [hopen.mode]
  exact hopen.goto _

theorem startVoid (tag : Tag) : Mirrors f (b.startVoid tag) (b'.startVoid tag) := by
  unfold Builder.startVoid
  dsimp only
  split
  · exact h.reopenFormatting.insertVoid tag
  · exact (h.reopenFormatting.insertVoid tag).noFrameset

theorem startRuby (tag : Tag) : Mirrors f (b.startRuby tag) (b'.startRuby tag) := by
  unfold Builder.startRuby
  dsimp only
  rw [h.inScope]
  split_ifs
  · exact h.insert tag
  · exact (h.popImplied _).insert tag
  · exact (h.popImpliedExcept _).insert tag

theorem insertForeign (space : Space) (tag : Tag) :
    Mirrors f (b.insertForeign space tag) (b'.insertForeign space tag) := by
  unfold Builder.insertForeign
  dsimp only
  split
  · exact h.insertClosed _ _
  · exact h.insertOpen _ _

theorem startInBody (hmode : b.mode.isText = false) (tag : Tag) :
    (b.startInBody tag).Mirrors f (b'.startInBody tag) := by
  unfold Builder.startInBody
  dsimp only
  generalize (if tag.name == "image" then { tag with name := "img" } else tag) = tag
  have hlayout : (b'.layout == .quirks) = (b.layout == .quirks) := by rw [h.layout]
  have hscripting : (tag.name == "noscript" && b'.scripting) =
      (tag.name == "noscript" && b.scripting) := by
    rw [h.scripting]
  rw [h.endParagraph.current_name, h.inScope, h.reopenFormatting.inScope, h.currentIs, hlayout,
    hscripting]
  refine .ite (fun _ => .done (h.startHtml tag)) fun _ => ?_
  refine .ite (fun _ => h.startInHead hmode tag) fun _ => ?_
  refine .ite (fun _ => .done (h.startBody tag)) fun _ => ?_
  refine .ite (fun _ => .done (h.startFrameset tag)) fun _ => ?_
  refine .ite (fun _ => .done (h.endParagraph.insert tag)) fun _ => ?_
  refine .ite (fun _ => .done ((ite h.endParagraph.pop h.endParagraph).insert tag)) fun _ => ?_
  refine .ite (fun _ => ?_) fun _ => ?_
  · have hopen := (h.endParagraph.insert tag).noFrameset
    exact .done { hopen with dropBreak := rfl, fit := { hopen.fit with } }
  refine .ite (fun _ => .done (h.startForm tag)) fun _ => ?_
  refine .ite (fun _ => .done (h.startItem tag _)) fun _ => ?_
  refine .ite (fun _ => .done (h.startItem tag _)) fun _ => ?_
  refine .ite (fun _ => .signal _ (h.endParagraph.insert tag)) fun _ => ?_
  refine .ite (fun _ => .done ((ite (h.popThroughTag _) h).insertFormatted tag).noFrameset)
    fun _ => ?_
  refine .ite (fun hname => .done (h.endLink.reopenFormatting.insertFormatting ?_)) fun _ => ?_
  · simp [allFormattingTags, beq_iff_eq.1 hname]
  refine .ite (fun hname => .done (h.reopenFormatting.insertFormatting ?_)) fun _ => ?_
  · exact List.mem_append_left _ (List.contains_iff_mem.1 hname)
  refine .ite (fun hname => .done ((ite (h.reopenFormatting.adopt _).reopenFormatting
    h.reopenFormatting).insertFormatting ?_)) fun _ => ?_
  · simp [allFormattingTags, beq_iff_eq.1 hname]
  refine .ite (fun _ => .done (h.insertFormatted tag).mark.noFrameset) fun _ => ?_
  refine .ite (fun _ => .done (((ite h h.endParagraph).insert tag).noFrameset.goto _)) fun _ => ?_
  refine .ite (fun _ => .done (h.startVoid tag)) fun _ => ?_
  refine .ite (fun _ => .done (h.insertVoid tag)) fun _ => ?_
  refine .ite (fun _ => .done (h.endParagraph.insertVoid tag).noFrameset) fun _ => ?_
  refine .ite (fun _ => ?_) fun _ => ?_
  · have hdrop : Mirrors f { b with dropBreak := true } { b' with dropBreak := true } :=
      { h with dropBreak := rfl, fit := { h.fit with } }
    exact hdrop.noFrameset.insertRaw hmode tag _
  refine .ite (fun _ => ?_) fun _ => ?_
  · refine h.endParagraph.reopenFormatting.noFrameset.insertRaw ?_ tag _
    rwa [Builder.noFrameset, (adds_reopenFormatting _).mode, mode_endParagraph]
  refine .ite (fun _ => h.noFrameset.insertRaw hmode tag _) fun _ => ?_
  refine .ite (fun _ => h.insertRaw hmode tag _) fun _ => ?_
  refine .ite (fun _ => .done (h.startSelect tag)) fun _ => ?_
  refine .ite (fun _ => .done ((ite h.pop h).insertFormatted tag)) fun _ => ?_
  refine .ite (fun _ => .done (h.startRuby tag)) fun _ => ?_
  refine .ite (fun _ => .done (h.insertForeign _ tag)) fun _ => ?_
  refine .ite (fun _ => .done (h.insertForeign _ tag)) fun _ => ?_
  exact .ite (fun _ => .done h) fun _ => .done (h.insertFormatted tag)

theorem endInBody (tag : Tag) : (b.endInBody tag).Mirrors f (b'.endInBody tag) := by
  unfold Builder.endInBody
  dsimp only
  simp only [h.inScope, h.hasNameInScope Name.boundsScope Name.isHeading]
  refine .ite (fun _ => .done h.endTemplate) fun _ => ?_
  refine .ite (fun _ => .done (ite (h.goto _) h)) fun _ => ?_
  refine .ite (fun _ => .ite (fun _ => .again (h.goto _)) fun _ => .done h) fun _ => ?_
  refine .ite (fun _ => .ite (fun _ => ?_) fun _ => .done h) fun _ => ?_
  · exact .done (ite (h.popThroughTag _).clearToMarker (h.popThroughTag _))
  refine .ite (fun _ => .done h.endForm) fun _ => ?_
  refine .ite (fun _ => .done ((ite h (h.insertImplied _)).popThroughTag _)) fun _ => ?_
  refine .ite (fun _ => .done (ite (h.popThroughTag _) h)) fun _ => ?_
  refine .ite (fun _ => .done (ite (h.popThroughName Name.isHeading) h)) fun _ => ?_
  refine .ite (fun _ => .done (h.adopt _)) fun _ => ?_
  exact .ite (fun _ => .done (h.startVoid _)) fun _ => .done (h.endPlain _)

theorem charsInBody (run : List Char) : Mirrors f (b.charsInBody run) (b'.charsInBody run) :=
  (h.reopenFormatting.noFramesetAfter run).putText run

theorem inBody (hmode : b.mode.isText = false) (p : Piece) :
    (b.inBody p).Mirrors f (b'.inBody p) := by
  unfold Builder.inBody
  rw [h.templates]
  split
  · exact .done h
  · exact .done (h.charsInBody _)
  · exact .done (h.charsInBody _)
  · exact .done (h.putComment _)
  · exact h.startInBody hmode _
  · exact h.endInBody _
  · exact .ite (fun _ => .done h) fun _ => h.eofInTemplate

end Builder.Mirrors

end HtmlWalk.Html
