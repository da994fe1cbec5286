import HtmlWalk.Html.Builder
import HtmlWalk.Proofs.Html.Echo

/-!
# Builders that mirror each other

Two runs of the tree builder can make the same document although one of them is told of more lines,
or gets its characters in smaller parts. The names of the nodes are then others, and so are the
parts of the characters that are kept in a table. `Mirrors f b b'` says that the second builder is
the first one but for that, with the names mapped by `f`.

A builder also names nodes in its own state: the open elements, the formatting elements, the head
and the form. `Fit b` says that these have been made, and that the tags and the insertion modes that
the builder keeps are some that it can keep. It is a part of `Mirrors`, so that what is proved of two
builders is at once proved of one.

Here are the steps that all rules are made of: each of them asks a question, to which both builders
give the same answer, or does something to the builder, after which the two still mirror each other.
-/

namespace HtmlWalk.Html

/-! ## Names -/

/-- An open element under its new name. -/
def Open.rename (f : NodeId → NodeId) (o : Open) : Open := { o with id := f o.id }

/-- A formatting element under its new name. -/
def Format.rename (f : NodeId → NodeId) : Format → Format
  | marker => marker
  | element id tag => element (f id) tag

theorem Format.rename_id : Format.rename id = id := by
  funext entry
  cases entry <;> rfl

theorem Format.rename_comp (f g : NodeId → NodeId) (entry : Format) :
    entry.rename (g ∘ f) = (entry.rename f).rename g := by
  cases entry <;> rfl

/-! ## Characters that are kept -/

/-- The second list has the runs of the first, each in one part or in more of them. Both have the
last run first. -/
inductive Recut : List (List Char) → List (List Char) → Prop
  | nil : Recut [] []
  | whole {runs runs' : List (List Char)} (run : List Char) (h : Recut runs runs') :
    Recut (run :: runs) (run :: runs')
  | part {runs runs' : List (List Char)} (x y : List Char) (h : Recut (x :: runs) runs') :
    Recut ((x ++ y) :: runs) (y :: runs')

protected theorem Recut.refl (runs : List (List Char)) : Recut runs runs := by
  induction runs with
  | nil => exact .nil
  | cons run runs ih => exact .whole run ih

protected theorem Recut.trans {runs runs' runs'' : List (List Char)} (h : Recut runs runs')
    (h' : Recut runs' runs'') : Recut runs runs'' := by
  induction h' generalizing runs with
  | nil => exact h
  | whole run h' ih =>
    cases h with
    | whole _ h => exact .whole run (ih h)
    | part x _ h => exact .part x run (ih h)
  | @part rest rest' x y h' ih =>
    -- What the second list has in one part, the third one has in two.
    generalize hrun : x ++ y = run at h
    cases h with
    | whole _ h =>
      subst hrun
      exact .part x y (ih (.whole x h))
    | part z _ h =>
      subst hrun
      rw [← List.append_assoc]
      exact .part (z ++ x) y (ih (.part z x h))

/-- Both have the same white space and other characters. -/
theorem Recut.any_hasInk {runs runs' : List (List Char)} (h : Recut runs runs') :
    runs'.any hasInk = runs.any hasInk := by
  induction h with
  | nil => rfl
  | whole run h ih => rw [List.any_cons, List.any_cons, ih]
  | part x y h ih =>
    have happend : hasInk (x ++ y) = (hasInk x || hasInk y) := List.any_append
    rw [List.any_cons, ih, List.any_cons, List.any_cons, happend]
    grind

/-! ## Tags and modes -/

/-- The tags of formatting elements. -/
def allFormattingTags : List String := formattingTags ++ ["a", "nobr"]

/-- Whether an insertion mode is for text, after which another one goes on. -/
def Insertion.isText : Insertion → Bool
  | text | inTableText => true
  | _ => false

/-- The insertion modes that templates can be in. -/
def templateModes : List Insertion :=
  [.inTemplate, .inTable, .inColumnGroup, .inTableBody, .inRow, .inBody]

/-! ## Mirroring -/

namespace Builder

/-- The nodes that a builder names have been made, formatting elements have their tags, and the
insertion modes that it keeps are some that can be kept. -/
structure Fit (b : Builder) : Prop where
  /-- The root element has been made. -/
  root : b.root.id < b.edits.size
  root_name : b.root.name = { tag := "html" }
  /-- So have the open elements. -/
  stack : ∀ o ∈ b.stack, o.id < b.edits.size
  /-- So have the formatting elements. -/
  formatting : ∀ id tag, .element id tag ∈ b.formatting →
    id < b.edits.size ∧ tag.name ∈ allFormattingTags
  /-- So has the head. -/
  head : ∀ id ∈ b.head, id < b.edits.size
  /-- So has the form. -/
  form : ∀ id ∈ b.form, id < b.edits.size
  /-- What comes after text is no text. -/
  resume : b.resume.isText = false
  templates : ∀ mode ∈ b.templates, mode ∈ templateModes

/-- The second builder is the first one with other names for the nodes, and with characters in
smaller parts. -/
structure Mirrors (f : Nat → Nat) (b b' : Builder) : Prop where
  /-- The edits make the same document. -/
  echo : Echo f b.edits b'.edits
  /-- The first builder names nodes that have been made. -/
  fit : b.Fit
  scripting : b'.scripting = b.scripting
  fragment : b'.fragment = b.fragment
  layout : b'.layout = b.layout
  root : b'.root = b.root.rename f
  stack : b'.stack = b.stack.map (Open.rename f)
  mode : b'.mode = b.mode
  resume : b'.resume = b.resume
  templates : b'.templates = b.templates
  formatting : b'.formatting = b.formatting.map (Format.rename f)
  head : b'.head = b.head.map f
  form : b'.form = b.form.map f
  framesetOk : b'.framesetOk = b.framesetOk
  dropBreak : b'.dropBreak = b.dropBreak
  fostering : b'.fostering = b.fostering
  tableText : Recut b.tableText b'.tableText

/-- Putting an item into an open element is one edit. -/
theorem putIn_eq (b : Builder) (o : Open) (item : Item) :
    b.putIn o item = b.emit ((b.targetIn o).edit item) := by
  unfold putIn
  cases b.targetIn o <;> rfl

theorem putText_eq (b : Builder) (run : List Char) :
    b.putText run = b.emit ((b.targetIn b.current).edit (.text (String.ofList run))) :=
  putIn_eq b b.current _

@[simp] theorem size_edits_emit (b : Builder) (e : Edit) :
    (b.emit e).edits.size = b.edits.size + 1 := by
  simp [emit]

@[simp] theorem size_edits_putIn (b : Builder) (o : Open) (item : Item) :
    (b.putIn o item).edits.size = b.edits.size + 1 := by
  rw [putIn_eq, size_edits_emit]

@[simp] theorem size_edits_put (b : Builder) (item : Item) :
    (b.put item).edits.size = b.edits.size + 1 := size_edits_putIn _ _ _

@[simp] theorem formatting_put (b : Builder) (item : Item) :
    (b.put item).formatting = b.formatting := by
  rw [put, putIn_eq, emit]

@[simp] theorem formatting_insert (b : Builder) (tag : Tag) :
    (b.insert tag).formatting = b.formatting :=
  formatting_put _ _

/-- The insertion mode that belongs to the open elements does not depend on the names of their
nodes. -/
theorem modeOf?_rename (f : NodeId → NodeId) (templates : List Insertion) (os : List Open) :
    modeOf? templates (os.map (Open.rename f)) = modeOf? templates os := by
  induction os with
  | nil => rfl
  | cons o os ih =>
    have hfind : (os.map (Open.rename f)).find? (·.name.isHtmlIn ["template", "table"]) =
        (os.find? (·.name.isHtmlIn ["template", "table"])).map (Open.rename f) := List.find?_map
    rw [List.map_cons, modeOf?, modeOf?, ih, hfind]
    cases os.find? (·.name.isHtmlIn ["template", "table"]) <;> rfl

namespace Mirrors

variable {f g : Nat → Nat} {b b' b'' : Builder}

protected theorem refl (hedits : Dom.Fit b.edits.toList) (hfit : b.Fit) : Mirrors id b b where
  echo := .refl hedits
  fit := hfit
  scripting := rfl
  fragment := rfl
  layout := rfl
  root := rfl
  stack := (List.map_id _).symm
  mode := rfl
  resume := rfl
  templates := rfl
  formatting := by rw [Format.rename_id, List.map_id]
  head := by rw [Option.map_id, id]
  form := by rw [Option.map_id, id]
  framesetOk := rfl
  dropBreak := rfl
  fostering := rfl
  tableText := .refl _

/-- The first builder mirrors itself. -/
theorem left (h : Mirrors f b b') : Mirrors id b b := .refl h.echo.fit h.fit

protected theorem trans (h : Mirrors f b b') (h' : Mirrors g b' b'') : Mirrors (g ∘ f) b b'' where
  echo := h.echo.trans h'.echo
  fit := h.fit
  scripting := h'.scripting.trans h.scripting
  fragment := h'.fragment.trans h.fragment
  layout := h'.layout.trans h.layout
  root := by rw [h'.root, h.root]; rfl
  stack := by rw [h'.stack, h.stack, List.map_map]; rfl
  mode := h'.mode.trans h.mode
  resume := h'.resume.trans h.resume
  templates := h'.templates.trans h.templates
  formatting := by
    rw [h'.formatting, h.formatting, List.map_map]
    exact List.map_congr_left fun entry _ => (Format.rename_comp f g entry).symm
  head := by rw [h'.head, h.head, Option.map_map]
  form := by rw [h'.form, h.form, Option.map_map]
  framesetOk := h'.framesetOk.trans h.framesetOk
  dropBreak := h'.dropBreak.trans h.dropBreak
  fostering := h'.fostering.trans h.fostering
  tableText := h.tableText.trans h'.tableText

/-- The names that are yet to be given do not matter. -/
theorem congr (h : Mirrors f b b') (hg : ∀ i < b.edits.size, g i = f i)
    (hecho : Echo g b.edits b''.edits) (heq : { b'' with edits := b'.edits } = b') :
    Mirrors g b b'' := by
  have hopen : ∀ o : Open, o.id < b.edits.size → o.rename f = o.rename g := fun o ho => by
    rw [Open.rename, Open.rename, hg o.id ho]
  have hoption : ∀ x : Option NodeId, (∀ id ∈ x, id < b.edits.size) → x.map f = x.map g := by
    intro x hx
    exact Option.map_congr fun id hid => (hg id (hx id hid)).symm
  have h := heq ▸ h
  refine { h with echo := hecho, root := ?_, stack := ?_, formatting := ?_, head := ?_, form := ?_ }
  · rw [← hopen _ h.fit.root]
    exact h.root
  · rw [← List.map_congr_left fun o ho => hopen o (h.fit.stack o ho)]
    exact h.stack
  · refine h.formatting.trans (List.map_congr_left fun entry hentry => ?_)
    cases entry with
    | marker => rfl
    | element id tag => rw [Format.rename, Format.rename, hg id (h.fit.formatting id tag hentry).1]
  · rw [← hoption _ h.fit.head]
    exact h.head
  · rw [← hoption _ h.fit.form]
    exact h.form

/-! ## Questions -/

section

variable (h : Mirrors f b b')
include h

theorem injective : f.Injective := h.echo.injective

theorem nextId : b'.nextId = f b.nextId := h.echo.next_size.symm

theorem opens : b'.opens = b.opens.map (Open.rename f) := by
  rw [Builder.opens, Builder.opens, h.stack, h.root, List.map_append, List.map_singleton]

theorem lt_of_mem_opens {o : Open} (ho : o ∈ b.opens) : o.id < b.edits.size := by
  rcases List.mem_append.1 ho with ho | ho
  · exact h.fit.stack o ho
  · rw [List.mem_singleton.1 ho]
    exact h.fit.root

theorem current : b'.current = b.current.rename f := by
  rw [Builder.current, Builder.current, h.stack, h.root, List.headD_map]

theorem current_lt : b.current.id < b.edits.size := by
  refine h.lt_of_mem_opens ?_
  unfold Builder.current Builder.opens
  cases b.stack <;> simp

theorem current_name : b'.current.name = b.current.name := by rw [h.current, Open.rename]

theorem currentIs (tag : String) : b'.currentIs tag = b.currentIs tag := by
  rw [Builder.currentIs, Builder.currentIs, h.current_name]

theorem hasOpen (tag : String) : b'.hasOpen tag = b.hasOpen tag := by
  rw [Builder.hasOpen, Builder.hasOpen, h.opens, List.any_map]
  rfl

theorem isOpen (id : NodeId) : b'.isOpen (f id) = b.isOpen id := by
  rw [Builder.isOpen, Builder.isOpen, h.opens, List.any_map]
  congr 1
  funext o
  exact decide_eq_decide.2 h.injective.eq_iff

theorem hasInScope (bound : Name → Bool) {test test' : Open → Bool}
    (ht : ∀ o, test' (o.rename f) = test o) :
    b'.hasInScope bound test' = b.hasInScope bound test := by
  have hfinds : ∀ os : List Open,
      findsInScope bound test' (os.map (Open.rename f)) = findsInScope bound test os := by
    intro os
    induction os with
    | nil => rfl
    | cons o os ih => rw [List.map_cons, findsInScope, findsInScope, ih, ht, Open.rename]
  rw [Builder.hasInScope, Builder.hasInScope, h.opens, hfinds]

theorem hasNameInScope (bound test : Name → Bool) :
    b'.hasInScope bound (test ·.name) = b.hasInScope bound (test ·.name) :=
  h.hasInScope bound fun _ => rfl

theorem inScope (bound : Name → Bool) (tag : String) : b'.inScope bound tag = b.inScope bound tag :=
  h.hasNameInScope bound (·.isHtml tag)

/-- A test for a node is one for its new name. -/
theorem rename_id_beq (id : NodeId) (o : Open) : ((o.rename f).id == f id) = (o.id == id) :=
  decide_eq_decide.2 h.injective.eq_iff

end

/-! ## Steps -/

section

variable (h : Mirrors f b b')
include h

/-- Other elements are open. -/
theorem setStack {os os' : List Open} (hos : os' = os.map (Open.rename f))
    (hfit : ∀ o ∈ os, o.id < b.edits.size) :
    Mirrors f { b with stack := os } { b' with stack := os' } :=
  { h with stack := hos, fit := { h.fit with stack := hfit } }

/-- Some of the open elements are closed. -/
theorem setStack_of_subset {os os' : List Open} (hos : os' = os.map (Open.rename f))
    (hsub : os ⊆ b.stack) : Mirrors f { b with stack := os } { b' with stack := os' } :=
  h.setStack hos fun o ho => h.fit.stack o (hsub ho)

theorem pop : Mirrors f b.pop b'.pop :=
  h.setStack_of_subset (by rw [h.stack, List.map_tail]) (List.tail_suffix _).subset

theorem popTo {test test' : Open → Bool} (ht : ∀ o, test' (o.rename f) = test o) :
    Mirrors f (b.popTo test) (b'.popTo test') := by
  refine h.setStack_of_subset ?_ (List.dropWhile_suffix _).subset
  rw [h.stack, List.dropWhile_map]
  congr 3
  funext o
  exact congrArg _ (ht o)

theorem popThrough {test test' : Open → Bool} (ht : ∀ o, test' (o.rename f) = test o) :
    Mirrors f (b.popThrough test) (b'.popThrough test') :=
  (h.popTo ht).pop

theorem popThroughName (test : Name → Bool) :
    Mirrors f (b.popThrough (test ·.name)) (b'.popThrough (test ·.name)) :=
  h.popThrough fun _ => rfl

theorem popToName (test : Name → Bool) :
    Mirrors f (b.popTo (test ·.name)) (b'.popTo (test ·.name)) :=
  h.popTo fun _ => rfl

theorem popThroughTag (tag : String) : Mirrors f (b.popThroughTag tag) (b'.popThroughTag tag) :=
  h.popThroughName (·.isHtml tag)

theorem popImplied (test : Name → Bool) : Mirrors f (b.popImplied test) (b'.popImplied test) := by
  refine h.setStack_of_subset ?_ (List.dropWhile_suffix _).subset
  rw [h.stack, List.dropWhile_map]
  rfl

theorem popImpliedExcept (tag : String) :
    Mirrors f (b.popImpliedExcept tag) (b'.popImpliedExcept tag) := h.popImplied _

theorem forget (id : NodeId) : Mirrors f (b.forget id) (b'.forget (f id)) := by
  refine h.setStack_of_subset ?_ List.eraseP_subset
  rw [h.stack, List.eraseP_map]
  congr 2
  funext o
  exact h.rename_id_beq id o

/-- Both make the same edit. -/
theorem emit {e : Edit} (he : e.Fits b.edits.size) :
    Mirrors f (b.emit e) (b'.emit (e.rename f)) := by
  have hle : b.edits.size ≤ (b.edits.push e).size := by simp
  exact { h with
    echo := h.echo.push he
    fit := { h.fit with
      root := h.fit.root.trans_le hle
      stack := fun o ho => (h.fit.stack o ho).trans_le hle
      formatting := fun id tag hentry => (h.fit.formatting id tag hentry).imp_left (·.trans_le hle)
      head := fun id hid => (h.fit.head id hid).trans_le hle
      form := fun id hid => (h.fit.form id hid).trans_le hle } }

theorem fosterTarget {os : List Open} (hos : os ⊆ b.opens) :
    Builder.fosterTarget b'.root (os.map (Open.rename f)) =
        (Builder.fosterTarget b.root os).rename f ∧
      (Builder.fosterTarget b.root os).Within b.edits.size := by
  have hroot := h.root
  induction os with
  | nil =>
    rw [hroot]
    exact ⟨rfl, h.fit.root⟩
  | cons o os ih =>
    have ho := h.lt_of_mem_opens (hos List.mem_cons_self)
    have ih := ih fun x hx => hos (List.mem_cons_of_mem _ hx)
    rw [List.map_cons, Builder.fosterTarget, Builder.fosterTarget, Open.rename]
    by_cases htemplate : o.name.isHtml "template"
    · simp only [htemplate, if_true]
      exact ⟨rfl, ho⟩
    · by_cases htable : o.name.isHtml "table"
      · simp only [htemplate, htable, if_true, if_false, Bool.false_eq_true]
        refine ⟨?_, ho, ?_⟩
        · rw [hroot, List.headD_map]
          rfl
        · cases os with
          | nil => exact h.fit.root
          | cons o' os => exact h.lt_of_mem_opens (hos (by simp))
      · simp only [htemplate, htable, if_false, Bool.false_eq_true]
        exact ih

theorem targetIn {o : Open} (ho : o.id < b.edits.size) :
    b'.targetIn (o.rename f) = (b.targetIn o).rename f ∧ (b.targetIn o).Within b.edits.size := by
  rw [Builder.targetIn, Builder.targetIn, h.fostering, h.opens, Open.rename]
  by_cases hfoster : (b.fostering && o.name.isTableFrame) = true
  · simp only [hfoster, if_true]
    exact h.fosterTarget (List.Subset.refl _)
  · simp only [hfoster, if_false, Bool.false_eq_true]
    unfold Open.place
    by_cases htemplate : o.name.isHtml "template"
    · simp only [htemplate, if_true]
      exact ⟨rfl, ho⟩
    · simp only [htemplate, if_false, Bool.false_eq_true]
      exact ⟨rfl, ho⟩

theorem putIn {o : Open} (ho : o.id < b.edits.size) {i : Item} (hi : i.Within b.edits.size) :
    Mirrors f (b.putIn o i) (b'.putIn (o.rename f) (i.rename f)) := by
  obtain ⟨htarget, hwithin⟩ := h.targetIn ho
  rw [putIn_eq, putIn_eq, htarget, ← Target.rename_edit]
  exact h.emit (hwithin.fits hi)

theorem put {i : Item} (hi : i.Within b.edits.size) :
    Mirrors f (b.put i) (b'.put (i.rename f)) := by
  rw [Builder.put, Builder.put, h.current]
  exact h.putIn h.current_lt hi

/-- Both make a node and put it somewhere. -/
theorem emit_put {e : Edit} (he : e.Fits b.edits.size) :
    Mirrors f ((b.emit e).put (.node b.nextId)) ((b'.emit (e.rename f)).put (.node b'.nextId)) := by
  rw [h.nextId]
  exact (h.emit he).put (i := .node _) (by simp [Item.Within, Builder.emit, Builder.nextId])

theorem insertClosed (name : Name) (attrs : List Attribute) :
    Mirrors f (b.insertClosed name attrs) (b'.insertClosed name attrs) :=
  h.emit_put (e := .element name attrs) trivial

theorem putComment (data : String) : Mirrors f (b.putComment data) (b'.putComment data) :=
  h.emit_put (e := .comment data) trivial

theorem putText (run : List Char) : Mirrors f (b.putText run) (b'.putText run) :=
  h.put (i := .text _) trivial

theorem putCommentAt {p : Place} (hp : p.Within b.edits.size) (data : String) :
    Mirrors f (b.putCommentAt p data) (b'.putCommentAt (p.rename f) data) := by
  unfold Builder.putCommentAt
  rw [h.nextId]
  refine (h.emit (e := .comment data) trivial).emit (e := .append p (.node _)) ⟨hp.mono ?_, ?_⟩
  · simp [Builder.emit]
  · simp [Item.Within, Builder.emit, Builder.nextId]

theorem nextOpen (name : Name) (attrs : List Attribute) :
    b'.nextOpen name attrs = (b.nextOpen name attrs).rename f := by
  rw [Builder.nextOpen, h.nextId]
  rfl

theorem insertOpen (name : Name) (attrs : List Attribute) :
    Mirrors f (b.insertOpen name attrs) (b'.insertOpen name attrs) := by
  have hclosed := h.insertClosed name attrs
  refine hclosed.setStack ?_ ?_
  · rw [List.map_cons, ← h.nextOpen, hclosed.stack]
  · rintro o (_ | ⟨_, ho⟩)
    · have hlt : b.edits.size < b.edits.size + 1 + 1 := by omega
      simp [Builder.insertClosed, Builder.nextOpen, Builder.nextId, Builder.emit, hlt]
    · exact hclosed.fit.stack o ho

theorem insert (tag : Tag) : Mirrors f (b.insert tag) (b'.insert tag) := h.insertOpen _ _

theorem insertVoid (tag : Tag) : Mirrors f (b.insertVoid tag) (b'.insertVoid tag) :=
  h.insertClosed _ _

theorem insertImplied (tag : String) : Mirrors f (b.insertImplied tag) (b'.insertImplied tag) :=
  h.insertOpen _ _

theorem goto (mode : Insertion) : Mirrors f (b.goto mode) (b'.goto mode) :=
  { h with mode := rfl, fit := { h.fit with } }

theorem noFrameset : Mirrors f b.noFrameset b'.noFrameset :=
  { h with framesetOk := rfl, fit := { h.fit with } }

theorem noFramesetAfter (run : List Char) :
    Mirrors f (b.noFramesetAfter run) (b'.noFramesetAfter run) := by
  unfold Builder.noFramesetAfter
  split
  · exact h.noFrameset
  · exact h

theorem resetMode : Mirrors f b.resetMode b'.resetMode := by
  unfold Builder.resetMode
  rw [h.templates, h.fragment, h.head, h.stack, modeOf?_rename, Option.isNone_map]
  exact h.goto _

end

end Mirrors

end Builder

end HtmlWalk.Html
