import HtmlWalk.Proofs.Html.Fragment.Rooted
import HtmlWalk.Proofs.Html.Mirror.Formatting

/-!
# Builders in a fragment

The builder of a fragment starts with a root element in the context of a template, and it never
leaves it. That is two statements in one (`Builder.InFragment`):

* The builder is in one of the insertion modes of such content, and no head, body or frameset is
  open (`Builder.Inner`). The modes before and after the body put nodes next to the root element,
  and one of these elements has to be open before the builder gets there. In a fragment their start
  tags count for nothing.
* Every node that has been made stands under the root element, each open element has a higher rank
  than those further out on the stack, and so nothing is put below itself (`Dom.Rooted`).

Here are the steps that all rules are made of, each with the lemma that it keeps the builder in the
fragment.
-/

namespace HtmlWalk.Html

/-! ## Names and modes inside the root element -/

/-- The tags of the elements that only a document has right below its root. -/
def outerTags : List String := ["head", "body", "frameset"]

/-- A name that is none of those. -/
def Name.IsInner (n : Name) : Prop := n.isHtmlIn outerTags = false

/-- Whether an insertion mode is one of those in a fragment. -/
def Insertion.isInner : Insertion → Bool
  | inBody | text | inTable | inTableText | inCaption | inColumnGroup | inTableBody | inRow | inCell
  | inSelect | inSelectInTable | inTemplate => true
  | beforeHead | inHead | inHeadNoscript | afterHead | afterBody | inFrameset | afterFrameset
  | afterAfterBody | afterAfterFrameset => false

theorem Name.IsInner.of_notMem {tag : String} (h : tag ∉ outerTags) :
    Name.IsInner { tag := tag } := by
  simpa [IsInner, isHtmlIn] using h

theorem Name.IsInner.of_space {n : Name} (h : n.space ≠ .html) : n.IsInner := by
  simp [IsInner, isHtmlIn, h]

theorem Name.IsInner.not_isHtml {n : Name} (h : n.IsInner) {tag : String}
    (htag : tag ∈ outerTags) : n.isHtml tag = false := by
  rw [Bool.eq_false_iff]
  intro hn
  simp only [isHtml, Bool.and_eq_true, beq_iff_eq] at hn
  simp [IsInner, isHtmlIn, hn.1, hn.2, htag] at h

/-- Formatting elements have inner names, and what is out of place in a table is not put into
them. -/
theorem notMem_outerTags_of_formatting {tag : String} (h : tag ∈ allFormattingTags) :
    tag ∉ outerTags ∧ Name.boundsTableScope { tag } = false := by
  have hall : ∀ tag ∈ allFormattingTags,
      tag ∉ outerTags ∧ Name.boundsTableScope { tag } = false := by decide
  exact hall tag h

/-- An open element inside the root element: it has been made under its name, which is an inner
one. -/
structure Open.Inner (d : Dom) (o : Open) : Prop where
  ne_root : o.id ≠ 0
  made : d.name? o.id = some o.name
  name : o.name.IsInner

/-- Elements that are given from the inside out have falling ranks. -/
def Descend (rank : NodeId → Nat) (os : List Open) : Prop :=
  os.Pairwise fun inner outer => rank outer.id < rank inner.id

namespace Builder

/-! ## The document of a builder -/

/-- The document that a builder has made so far. -/
def dom (b : Builder) : Dom := Dom.ofEdits b.edits.toList

theorem dom_emit (b : Builder) (e : Edit) : (b.emit e).dom = b.dom.apply e := by
  rw [dom, emit, Array.toList_push, Dom.ofEdits_concat, dom]

theorem size_dom (b : Builder) : b.dom.nodes.size = b.edits.size := by
  rw [dom, Dom.size_ofEdits, Array.length_toList]

theorem opens_putIn (b : Builder) (o : Open) (item : Item) : (b.putIn o item).opens = b.opens := by
  rw [putIn_eq]
  rfl

theorem current_mem_opens (b : Builder) : b.current ∈ b.opens := by
  unfold current opens
  cases b.stack <;> simp

/-- The innermost open element has the highest rank. -/
theorem rank_le_current {b : Builder} {rank : NodeId → Nat} (h : Descend rank b.opens) {o : Open}
    (ho : o ∈ b.opens) : rank o.id ≤ rank b.current.id := by
  unfold current opens at *
  cases hstack : b.stack with
  | nil =>
    rw [hstack] at ho
    rw [List.mem_singleton.1 ho]
    rfl
  | cons top rest =>
    rw [hstack] at ho h
    rcases List.mem_cons.1 ho with rfl | ho
    · exact Nat.le_refl _
    · exact Nat.le_of_lt ((List.pairwise_cons.1 h).1 o ho)

/-! ## Inner builders -/

/-- What the builder of a fragment says of itself: names and modes are inner ones, and the
characters of its edits have been written. -/
structure Inner (b : Builder) : Prop where
  fragment : b.fragment = true
  /-- The root element is the first node. -/
  root : b.root = ⟨0, { tag := "html" }, false⟩
  root_made : b.dom.name? 0 = some { tag := "html" }
  stack : ∀ o ∈ b.stack, o.Inner b.dom
  formatting : ∀ id tag, .element id tag ∈ b.formatting → tag.name ∈ allFormattingTags
  mode : b.mode.isInner = true
  resume : b.resume.isInner = true
  templates : ∀ mode ∈ b.templates, mode.isInner = true
  written : Dom.WritesAll b.edits.toList

theorem lt_size_of_name? {b : Builder} {id : NodeId} {name : Name}
    (h : b.dom.name? id = some name) : id < b.dom.nodes.size :=
  Dom.lt_size_of_content? (Dom.isSome_content?_of_name? h)

theorem name?_emit {b : Builder} {id : NodeId} {name : Name} (h : b.dom.name? id = some name)
    (e : Edit) : (b.emit e).dom.name? id = some name := by
  rw [dom_emit, (Dom.growsAt_apply e (lt_size_of_name? h)).name?, h]

end Builder

theorem Open.Inner.emit {b : Builder} {o : Open} (h : o.Inner b.dom) (e : Edit) :
    o.Inner (b.emit e).dom :=
  { h with made := Builder.name?_emit h.made e }

namespace Builder

theorem name?_nextId (b : Builder) (name : Name) (attrs : List Attribute) :
    (b.emit (.element name attrs)).dom.name? b.nextId = some name := by
  rw [dom_emit, Dom.apply, Dom.name?, Dom.content?_make, nextId, if_pos b.size_dom.symm]

namespace Inner

variable {b : Builder} (h : b.Inner)
include h

/-- Whatever is edited, what the builder says of itself stays right. -/
theorem emit {e : Edit} (he : ∀ value ∈ e.characters?, b.dom.Writes (b.dom.apply e) value) :
    (b.emit e).Inner :=
  { h with
    root_made := name?_emit h.root_made e
    stack := fun o ho => (h.stack o ho).emit e
    written := by
      rw [Builder.emit, Array.toList_push]
      exact h.written.concat he }

theorem emit_of_none {e : Edit} (he : e.characters? = none) : (b.emit e).Inner :=
  h.emit (by simp [he])

theorem setStack {os : List Open} (hos : ∀ o ∈ os, o.Inner b.dom) :
    Inner { b with stack := os } :=
  { h with stack := hos }

theorem opens_made {o : Open} (ho : o ∈ b.opens) : b.dom.name? o.id = some o.name := by
  rcases List.mem_append.1 ho with ho | ho
  · exact (h.stack o ho).made
  · rw [List.mem_singleton.1 ho, h.root]
    exact h.root_made

theorem nextId_ne_zero : b.nextId ≠ 0 := by
  have hlt := lt_size_of_name? h.root_made
  rw [size_dom] at hlt
  exact Nat.ne_of_gt hlt

/-- No head, body or frameset is open. -/
theorem opens_not_isHtml {o : Open} (ho : o ∈ b.opens) {tag : String} (htag : tag ∈ outerTags) :
    o.name.isHtml tag = false := by
  rcases List.mem_append.1 ho with ho | ho
  · exact (h.stack o ho).name.not_isHtml htag
  · rw [List.mem_singleton.1 ho, h.root]
    simp only [outerTags, List.mem_cons, List.not_mem_nil, or_false] at htag
    rcases htag with rfl | rfl | rfl <;> rfl

theorem inScope_eq_false {tag : String} (htag : tag ∈ outerTags) (bound : Name → Bool) :
    b.inScope bound tag = false := by
  have hfinds : ∀ os ⊆ b.opens, findsInScope bound (·.name.isHtml tag) os = false := by
    intro os hos
    induction os with
    | nil => rfl
    | cons o os ih =>
      obtain ⟨ho, hos⟩ := List.cons_subset.1 hos
      rw [findsInScope, h.opens_not_isHtml ho htag, ih hos, Bool.and_false, Bool.or_false]
  exact hfinds b.opens (List.Subset.refl _)

theorem templates_headD : (b.templates.headD .inBody).isInner = true := by
  have htemplates := h.templates
  cases hmodes : b.templates with
  | nil => rfl
  | cons mode modes => exact htemplates mode (hmodes ▸ List.mem_cons_self)

theorem modeOf? {os : List Open} (hos : os ⊆ b.stack) :
    ∀ mode ∈ Builder.modeOf? b.templates os, mode.isInner = true := by
  induction os with
  | nil => exact nofun
  | cons o os ih =>
    obtain ⟨ho, hos⟩ := List.cons_subset.1 hos
    have hname := (h.stack o ho).name
    unfold Builder.modeOf?
    split
    · exact ih hos
    · next hspace =>
      have hnot : ∀ tag ∈ outerTags, o.name.tag ≠ tag := by
        intro tag htag heq
        have hfalse := hname.not_isHtml htag
        simp_all [Name.isHtml]
      split
      case h_11 => exact fun mode hmode => Option.some.inj hmode ▸ h.templates_headD
      case h_12 htag | h_13 htag | h_14 htag => exact absurd htag (hnot _ (by simp [outerTags]))
      case h_15 => exact ih hos
      case h_1 =>
        intro mode hmode
        obtain rfl := Option.some.inj hmode
        split <;> rfl
      all_goals exact fun mode hmode => Option.some.inj hmode ▸ rfl

theorem resetMode_mode : b.resetMode.mode.isInner = true := by
  have hreset : ((Builder.modeOf? b.templates b.stack).getD <|
      if b.fragment then b.templates.headD .inBody
      else if b.head.isNone then .beforeHead else .afterHead).isInner = true := by
    cases hmode : Builder.modeOf? b.templates b.stack with
    | none =>
      rw [Option.getD_none, if_pos h.fragment]
      exact h.templates_headD
    | some mode => exact h.modeOf? (List.Subset.refl _) mode hmode
  exact hreset

end Inner

/-! ## Where items go -/

/-- An item goes into an open element: into the one it belongs into, or into one of those in which
what is out of place in a table ends up. -/
theorem targetIn_cases {b : Builder} (hmade : ∀ o ∈ b.opens, b.dom.name? o.id = some o.name)
    {o : Open} (ho : o ∈ b.opens) (hroot : b.root.name.boundsTableScope = true) :
    (∃ p, b.targetIn o = .place p ∧ ∃ e ∈ b.opens, b.dom.Holds e.id p ∧
      (e = o ∨ e.name.boundsTableScope = true)) ∨
    ∃ table ∈ b.opens, ∃ below, b.targetIn o = .table table.id below ∧
      table.name.isHtml "table" = true := by
  have hchildren : ∀ e ∈ b.opens, b.dom.Holds e.id (.children e.id) := fun e he =>
    ⟨rfl, by rw [hmade e he]; rfl⟩
  have hcontents : ∀ e ∈ b.opens, e.name.isHtml "template" = true →
      b.dom.Holds e.id (.contents e.id) := fun e he htemplate =>
    ⟨rfl, e.name, hmade e he, htemplate⟩
  have hfoster : ∀ os ⊆ b.opens,
      (∃ p, fosterTarget b.root os = .place p ∧ ∃ e ∈ b.opens, b.dom.Holds e.id p ∧
        (e = o ∨ e.name.boundsTableScope = true)) ∨
      ∃ table ∈ b.opens, ∃ below, fosterTarget b.root os = .table table.id below ∧
        table.name.isHtml "table" = true := by
    intro os hos
    induction os with
    | nil =>
      have hmem : b.root ∈ b.opens := by simp [opens]
      exact .inl ⟨_, rfl, b.root, hmem, hchildren _ hmem, .inr hroot⟩
    | cons x os ih =>
      obtain ⟨hx, hos⟩ := List.cons_subset.1 hos
      unfold fosterTarget
      split
      · next htemplate =>
        refine .inl ⟨_, rfl, x, hx, hcontents x hx htemplate, .inr ?_⟩
        simp only [Name.isHtml, Bool.and_eq_true, beq_iff_eq] at htemplate
        simp [Name.boundsTableScope, Name.isHtmlIn, htemplate]
      · split
        · next htable => exact .inr ⟨x, hx, _, rfl, htable⟩
        · exact ih hos
  unfold targetIn
  split
  · exact hfoster b.opens (List.Subset.refl _)
  · refine .inl ⟨_, rfl, o, ho, ?_, .inl rfl⟩
    unfold Open.place
    split
    · next htemplate => exact hcontents o ho htemplate
    · exact hchildren o ho

section

variable {b : Builder} {rank : NodeId → Nat} {o : Open}

theorem of_isTable {loose : Set NodeId} (h : b.dom.Rooted rank loose)
    (hmade : ∀ o ∈ b.opens, b.dom.name? o.id = some o.name) (ho : o ∈ b.opens)
    (htable : o.name.isHtml "table" = true) :
    o.id ≠ 0 ∧ (b.dom.content? o.id).isSome ∧ o.name.boundsTableScope = true := by
  refine ⟨fun hid => ?_, Dom.isSome_content?_of_name? (hmade o ho), ?_⟩
  · have hname := hmade o ho
    rw [hid, h.root] at hname
    rw [← Option.some.inj hname] at htable
    cases htable
  · simp only [Name.isHtml, Bool.and_eq_true, beq_iff_eq] at htable
    simp [Name.boundsTableScope, Name.isHtmlIn, htable]

/-- A loose node is put into an open element, if it has a higher rank than those in which it may
end up. -/
theorem rooted_putIn {loose : Set NodeId} (h : b.dom.Rooted rank loose)
    (hmade : ∀ o ∈ b.opens, b.dom.name? o.id = some o.name)
    (hroot : b.root.name.boundsTableScope = true) (ho : o ∈ b.opens) {x : NodeId}
    (hx : x ∈ loose) (hmovable : b.dom.isMovable x = true) (hloose : loose ⊆ {x})
    (hrank : ∀ e ∈ b.opens, e = o ∨ e.name.boundsTableScope = true → rank e.id < rank x) :
    (b.putIn o (.node x)).dom.Rooted rank (loose \ {x}) := by
  rw [putIn_eq, dom_emit]
  rcases targetIn_cases hmade ho hroot with
    ⟨p, hp, e, he, hholds, hcase⟩ | ⟨table, ht, below, htarget, htable⟩
  · rw [hp]
    exact h.append hx hmovable hholds (hrank e he hcase)
  · obtain ⟨hne, hcontent, hbounds⟩ := of_isTable h hmade ht htable
    have hlt := hrank table ht (.inr hbounds)
    rw [htarget]
    refine h.foster hx hmovable hcontent hne (fun hmem => ?_) (Nat.le_of_lt hlt) below
    obtain rfl : table.id = x := hloose hmem
    exact Nat.lt_irrefl _ hlt

/-- Characters are put into an open element. -/
theorem rooted_putText (h : b.dom.Rooted rank ∅)
    (hmade : ∀ o ∈ b.opens, b.dom.name? o.id = some o.name)
    (hroot : b.root.name.boundsTableScope = true) (ho : o ∈ b.opens)
    (hrank : ∀ e ∈ b.opens, rank e.id < rank b.dom.nodes.size) (value : String) :
    (b.putIn o (.text value)).dom.Rooted rank ∅ ∧
      b.dom.Writes (b.putIn o (.text value)).dom value := by
  rw [putIn_eq, dom_emit]
  rcases targetIn_cases hmade ho hroot with
    ⟨p, hp, e, he, hholds, -⟩ | ⟨table, ht, below, htarget, htable⟩
  · rw [hp]
    exact h.appendText hholds (hrank e he) value
  · obtain ⟨hne, hcontent, -⟩ := of_isTable h hmade ht htable
    rw [htarget]
    exact h.fosterText hcontent hne (Nat.le_of_lt (hrank table ht)) below value

/-- The node that comes next may be given a rank above all open elements. -/
theorem exists_rank (h : b.dom.Rooted rank ∅) (hdescend : Descend rank b.opens)
    (hmade : ∀ o ∈ b.opens, b.dom.name? o.id = some o.name) :
    ∃ rank' : NodeId → Nat, b.dom.Rooted rank' ∅ ∧ Descend rank' b.opens ∧
      ∀ o ∈ b.opens, rank' o.id < rank' b.dom.nodes.size := by
  have hold : ∀ x < b.dom.nodes.size, ∀ r,
      Function.update rank b.dom.nodes.size r x = rank x := fun x hx r =>
    Function.update_of_ne (Nat.ne_of_lt hx) r rank
  have hlt : ∀ o ∈ b.opens, o.id < b.dom.nodes.size := fun o ho => lt_size_of_name? (hmade o ho)
  refine ⟨Function.update rank b.dom.nodes.size (rank b.current.id + 1), h.rerank ?_, ?_, ?_⟩
  · intro e x he hx hrank
    rwa [hold e he, hold x hx]
  · refine List.Pairwise.imp_of_mem (fun ho ho' hrank => ?_) hdescend
    rwa [hold _ (hlt _ ho), hold _ (hlt _ ho')]
  · intro o ho
    rw [hold _ (hlt o ho), Function.update_self]
    exact Nat.lt_succ_of_le (rank_le_current hdescend ho)

end

/-! ## Builders in the fragment -/

/-- The builder of a fragment, which has never left the root element. -/
structure InFragment (b : Builder) : Prop extends b.Inner where
  /-- Every node stands under the root element, the open ones one after the other. -/
  rooted : ∃ rank, b.dom.Rooted rank ∅ ∧ Descend rank b.opens

namespace InFragment

variable {b : Builder} (h : b.InFragment)
include h

/-! ### Open elements -/

/-- Some of the open elements are closed. -/
theorem setStack_of_sublist {os : List Open} (hos : os.Sublist b.stack) :
    InFragment { b with stack := os } := by
  obtain ⟨rank, hrooted, hdescend⟩ := h.rooted
  exact { h.setStack fun o ho => h.stack o (hos.subset ho) with
    rooted := ⟨rank, hrooted, hdescend.sublist (hos.append_right _)⟩ }

theorem pop : b.pop.InFragment := h.setStack_of_sublist (List.tail_sublist _)

theorem popTo (test : Open → Bool) : (b.popTo test).InFragment :=
  h.setStack_of_sublist (List.dropWhile_sublist _)

theorem popThrough (test : Open → Bool) : (b.popThrough test).InFragment := (h.popTo test).pop

theorem popThroughTag (tag : String) : (b.popThroughTag tag).InFragment := h.popThrough _

theorem popImplied (test : Name → Bool) : (b.popImplied test).InFragment :=
  h.setStack_of_sublist (List.dropWhile_sublist _)

theorem popImpliedExcept (tag : String) : (b.popImpliedExcept tag).InFragment := h.popImplied _

theorem forget (id : NodeId) : (b.forget id).InFragment :=
  h.setStack_of_sublist List.eraseP_sublist

/-! ### Nodes -/

theorem root_bounds : b.root.name.boundsTableScope = true := by
  rw [h.root]
  rfl

/-- Nodes are neither made nor moved. -/
theorem emit_line (n : Nat) : (b.emit (.line n)).InFragment := by
  obtain ⟨rank, hrooted, hdescend⟩ := h.rooted
  refine { h.emit_of_none rfl with rooted := ⟨rank, ?_, hdescend⟩ }
  rw [dom_emit]
  exact hrooted.keep (Dom.Keeps.refl _).skip hrooted.linked.skip (Dom.list_skip _)
    (Dom.parent?_skip _)

theorem addAttrs (id : NodeId) (attrs : List Attribute) :
    (b.emit (.addAttrs id attrs)).InFragment := by
  obtain ⟨rank, hrooted, hdescend⟩ := h.rooted
  refine { h.emit_of_none rfl with rooted := ⟨rank, ?_, hdescend⟩ }
  rw [dom_emit]
  refine hrooted.keep (Dom.Keeps.addAttrs _ id attrs).skip (hrooted.linked.addAttrs id attrs).skip
    (fun p => ?_) fun x => ?_
  · rw [Dom.apply, Dom.list_skip, Dom.addAttrs, Dom.list_update] <;> intro s <;> split <;> rfl
  · rw [Dom.apply, Dom.parent?_skip, Dom.addAttrs, Dom.parent?_update]
    intro s
    split <;> rfl

theorem putText (run : List Char) : (b.putText run).InFragment := by
  obtain ⟨rank, hrooted, hdescend⟩ := h.rooted
  obtain ⟨rank, hrooted, hdescend, hrank⟩ := exists_rank hrooted hdescend fun _ => h.opens_made
  obtain ⟨hput, hwrites⟩ := rooted_putText hrooted (fun _ => h.opens_made) h.root_bounds
    b.current_mem_opens hrank (String.ofList run)
  rw [Builder.putText, Builder.put]
  rw [putIn_eq] at hput hwrites ⊢
  refine { h.emit fun value hvalue => ?_ with rooted := ⟨rank, hput, hdescend⟩ }
  rw [dom_emit] at hwrites
  have heq : ((b.targetIn b.current).edit (.text (String.ofList run))).characters? =
      some (String.ofList run) := by
    cases b.targetIn b.current <;> rfl
  obtain rfl := Option.some.inj (heq.symm.trans hvalue)
  exact hwrites

/-- A node is made and put into the current element. -/
theorem emit_put {e : Edit} {c : Content} (he : b.dom.apply e = b.dom.make c none)
    (hcharacters : e.characters? = none) (hkind : c.kind?.isSome)
    (hmovable : (b.dom.make c none).isMovable b.nextId = true) :
    ((b.emit e).put (.node b.nextId)).Inner ∧ ∃ rank,
      ((b.emit e).put (.node b.nextId)).dom.Rooted rank ∅ ∧
        Descend rank ((b.emit e).put (.node b.nextId)).opens ∧
        ∀ o ∈ ((b.emit e).put (.node b.nextId)).opens, rank o.id < rank b.nextId := by
  obtain ⟨rank, hrooted, hdescend⟩ := h.rooted
  obtain ⟨rank, hrooted, hdescend, hrank⟩ := exists_rank hrooted hdescend fun _ => h.opens_made
  have hinner := h.emit_of_none hcharacters
  have hmade := hrooted.make hkind
  have hsize : b.nextId = b.dom.nodes.size := b.size_dom.symm
  rw [← he, ← dom_emit, ← hsize] at hmade
  rw [← he, ← dom_emit] at hmovable
  rw [← hsize] at hrank
  have hput := rooted_putIn hmade (fun _ => hinner.opens_made) h.root_bounds
    (b.emit e).current_mem_opens (.inl rfl) hmovable (insert_empty_eq (α := NodeId) _).subset
    fun o ho _ => hrank o ho
  rw [Dom.insert_empty_sdiff] at hput
  rw [Builder.put] at *
  rw [opens_putIn]
  refine ⟨?_, rank, hput, hdescend, hrank⟩
  rw [putIn_eq]
  refine hinner.emit fun value hvalue => ?_
  cases hedit : (b.emit e).targetIn (b.emit e).current <;> rw [hedit] at hvalue <;> cases hvalue

theorem emit_put_element (name : Name) (attrs : List Attribute) :
    (b.insertClosed name attrs).Inner ∧ ∃ rank, (b.insertClosed name attrs).dom.Rooted rank ∅ ∧
      Descend rank (b.insertClosed name attrs).opens ∧
      ∀ o ∈ (b.insertClosed name attrs).opens, rank o.id < rank b.nextId := by
  have hmovable : (b.dom.make (.element name attrs) none).isMovable b.nextId = true := by
    simp [Dom.isMovable, Dom.content?_make, nextId, size_dom]
  exact h.emit_put (e := .element name attrs) rfl rfl rfl hmovable

theorem insertClosed (name : Name) (attrs : List Attribute) :
    (b.insertClosed name attrs).InFragment := by
  obtain ⟨hinner, rank, hrooted, hdescend, -⟩ := h.emit_put_element name attrs
  exact { hinner with rooted := ⟨rank, hrooted, hdescend⟩ }

theorem insertOpen {name : Name} (hname : name.IsInner) (attrs : List Attribute) :
    (b.insertOpen name attrs).InFragment := by
  obtain ⟨hinner, rank, hrooted, hdescend, hrank⟩ := h.emit_put_element name attrs
  have hmade : (b.insertClosed name attrs).dom.name? b.nextId = some name := by
    rw [Builder.insertClosed, Builder.put, putIn_eq]
    exact name?_emit (b.name?_nextId name attrs) _
  have hopen : (b.nextOpen name attrs).Inner (b.insertClosed name attrs).dom :=
    ⟨h.nextId_ne_zero, hmade, hname⟩
  have hopens := hinner.setStack (List.forall_mem_cons.2 ⟨hopen, hinner.stack⟩)
  exact ⟨hopens, rank, hrooted, List.pairwise_cons.2 ⟨hrank, hdescend⟩⟩

theorem insert {tag : Tag} (htag : tag.name ∉ outerTags) : (b.insert tag).InFragment :=
  h.insertOpen (.of_notMem htag) _

theorem insertVoid (tag : Tag) : (b.insertVoid tag).InFragment := h.insertClosed _ _

theorem insertImplied {tag : String} (htag : tag ∉ outerTags) : (b.insertImplied tag).InFragment :=
  h.insertOpen (.of_notMem htag) _

theorem putComment (data : String) : (b.putComment data).InFragment := by
  have hmovable : (b.dom.make (.comment data) none).isMovable b.nextId = true := by
    simp [Dom.isMovable, Dom.content?_make, nextId, size_dom]
  obtain ⟨hinner, rank, hrooted, hdescend, -⟩ :=
    h.emit_put (e := .comment data) rfl rfl rfl hmovable
  exact { hinner with rooted := ⟨rank, hrooted, hdescend⟩ }

/-! ### Modes -/

theorem goto {mode : Insertion} (hmode : mode.isInner = true) : (b.goto mode).InFragment :=
  { h with mode := hmode }

theorem noFrameset : b.noFrameset.InFragment := { h with }

theorem noFramesetAfter (run : List Char) : (b.noFramesetAfter run).InFragment := by
  unfold Builder.noFramesetAfter
  split
  · exact h.noFrameset
  · exact h

theorem resetMode : b.resetMode.InFragment := h.goto h.resetMode_mode

end InFragment

end Builder

end HtmlWalk.Html
