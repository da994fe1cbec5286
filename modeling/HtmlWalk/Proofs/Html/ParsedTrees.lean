import HtmlWalk.Proofs.Html.Doctypes
import HtmlWalk.Proofs.Html.ExactErrors
import HtmlWalk.Proofs.Html.ShownLines
import HtmlWalk.Proofs.Walk.Faults
import HtmlWalk.Proofs.Walk.ParentView
import HtmlWalk.Proofs.Walk.Route

/-!
# Parsed trees are in order

**Theorem (`parse_inOrder`).** The only document in a parsed document is its root, fragments are not
in it, and at most one doctype is, which is a child of the root. The only fragment in a parsed
fragment is its root, and neither documents nor doctypes are in it.

So a walk of a parsed document comes to a document just once (`countP_calls_document`), and whatever
else has a callback that is told the parent is told one (`isSome_parent_of_mem_calls`).

No node under construction is a fragment, and none is a document, since no edit makes one; those
around the contents of templates are left out where the contents join the children. Doctypes are
made, but they stand at the top, hence none is below a child of the root.
-/

namespace HtmlWalk

/-! ## Places in trees -/

theorem Node.All.at? {P : Own → Prop} {n m : Node} (h : n.All P) {p : Position}
    (hm : n.at? p = some m) : P m.own := by
  induction p generalizing n with
  | nil => exact Option.some.inj hm ▸ (all_iff.1 h).1
  | cons i p ih =>
    obtain ⟨c, hc, hm⟩ := Option.bind_eq_some_iff.1 hm
    exact ih ((all_iff.1 h).2 c (List.mem_of_getElem? hc)) hm

/-- A node without a property that all nodes below the root have is the root. -/
theorem Node.eq_nil_of_at? {P : Own → Prop} {n m : Node} (h : ∀ c ∈ n.children, c.All P)
    {p : Position} (hm : n.at? p = some m) (hP : ¬ P m.own) : p = [] := by
  cases p with
  | nil => rfl
  | cons i p =>
    obtain ⟨c, hc, hm⟩ := Option.bind_eq_some_iff.1 hm
    exact absurd ((h c (List.mem_of_getElem? hc)).at? hm) hP

/-- The nodes of a kind that is not below the roots are among the roots. -/
theorem Node.countP_preorderAll {k : Kind} {cs : List Node}
    (h : ∀ c ∈ cs, ∀ d ∈ c.children, d.All (·.kind ≠ k)) :
    (preorderAll cs).countP (fun m => decide (m.kind = k)) =
      cs.countP fun m => decide (m.kind = k) := by
  induction cs with
  | nil => rfl
  | cons c cs ih =>
    obtain ⟨hc, hcs⟩ := List.forall_mem_cons.1 h
    have hbelow : (preorderAll c.children).countP (fun m => decide (m.kind = k)) = 0 := by
      refine List.countP_eq_zero.2 fun m hm => ?_
      obtain ⟨d, hd, hmd⟩ := mem_preorderAll.1 hm
      simpa using hc d hd m hmd
    rw [preorderAll, List.countP_append, ih hcs, c.preorder_eq, List.countP_cons, hbelow,
      List.countP_cons]
    omega

namespace Html

/-! ## Trees of documents under construction -/

namespace Tracked

variable {t : Tracked} {located : Bool} {id : NodeId}

theorem kind?_of_own? {own : Own} (h : t.own? located id = some own) :
    t.dom.kind? id = some own.kind := by
  obtain ⟨c, hc, hown⟩ := Option.bind_eq_some_iff.1 h
  rw [Dom.kind?, hc, Option.bind_some]
  cases c <;> cases hown <;> rfl

/-- A node comes from no document where there is none, and never from a fragment. -/
theorem Shows.kind {own : Own} (h : t.Shows located own) (ht : t.dom.HasNoDocument) :
    own.kind ≠ .document ∧ own.kind ≠ .fragment := by
  obtain ⟨id, hid⟩ := h
  refine ⟨fun hkind => ht id (hkind ▸ kind?_of_own? hid), ?_⟩
  obtain ⟨c, -, hown⟩ := Option.bind_eq_some_iff.1 hid
  cases c <;> cases hown <;> simp [Own.kind]

/-- Doctypes stand at the top. -/
def DoctypesOnTop (t : Tracked) : Prop :=
  t.dom.Linked ∧ ∀ x, t.dom.kind? x = some .doctype → t.dom.parent? x = some .document

theorem DoctypesOnTop.all_tree? (h : t.DoctypesOnTop) (depth : Nat) {place : Place}
    (hplace : place ≠ .document) (hid : id ∈ t.dom.list place) :
    ∀ tree ∈ t.tree? located depth id, tree.All (·.kind ≠ .doctype) := by
  have hne : ∀ place, place ≠ .document → ∀ x ∈ t.dom.list place,
      t.dom.kind? x ≠ some .doctype := by
    intro place hplace x hx hdoctype
    have hparent := h.2 x hdoctype
    rw [h.1.parent? place x hx] at hparent
    exact hplace (Option.some.inj hparent)
  have hdown : ∀ x s, t.dom.slot? x = some s → t.dom.kind? x ≠ some .doctype →
      ∀ j, j ∈ s.children ∨ j ∈ s.contents → t.dom.kind? j ≠ some .doctype := by
    rintro x s hs - j (hj | hj)
    · exact hne (.children x) (by simp) j (by simpa [Dom.list, hs] using hj)
    · exact hne (.contents x) (by simp) j (by simpa [Dom.list, hs] using hj)
  intro tree htree n hn m hm hdoctype
  obtain ⟨j, hj, hown⟩ :=
    all_tree?_of hdown depth (hne place hplace id hid) tree htree n hn m hm
  exact hj (hdoctype ▸ kind?_of_own? hown)

/-- No doctype is below a tree. -/
theorem DoctypesOnTop.below (h : t.DoctypesOnTop) (depth : Nat) (id : NodeId) :
    ∀ tree ∈ t.tree? located depth id, ∀ n ∈ tree.toNodes, ∀ c ∈ n.children,
      c.All (·.kind ≠ .doctype) := by
  cases depth with
  | zero =>
    intro tree htree
    cases htree
  | succ depth =>
    intro tree htree n hn
    obtain ⟨s, hs, rfl⟩ := Option.map_eq_some_iff.1 htree
    have hbelow : ∀ place, place ≠ .document → ∀ tree ∈
        (t.dom.list place).toList.filterMap (t.tree? located depth),
          tree.All (·.kind ≠ .doctype) := by
      intro place hplace tree hmem
      obtain ⟨j, hj, htree⟩ := List.mem_filterMap.1 hmem
      exact h.all_tree? depth hplace (Array.mem_toList_iff.1 hj) tree htree
    have hchildren := hbelow (.children id) (by simp)
    have hcontents := hbelow (.contents id) (by simp)
    simp only [Dom.list, hs, Option.map_some, Option.getD_some] at hchildren hcontents
    cases hc : s.content with
    | document =>
      simp only [hc, Tree.toNodes, List.mem_singleton] at hn
      subst hn
      exact Tree.forall_mem_toNodesAll.2 hchildren
    | element name attrs =>
      simp only [hc, Tree.toNodes_element, Tree.inside_element, List.mem_singleton] at hn
      subst hn
      refine Tree.forall_mem_toNodesAll.2 (List.forall_mem_append.2 ⟨hchildren, ?_⟩)
      split
      · simpa [Tree.inside] using hcontents
      · simp
    | instruction target data => simp [hc, Tree.toNodes] at hn
    | doctype d | comment data | text value =>
      simp only [hc, Tree.toNodes, List.mem_singleton] at hn
      subst hn
      intro c hmem
      cases hmem

/-- Doctypes become of doctypes. -/
theorem countP_toNodes (depth : Nat) (id : NodeId) : ∀ tree ∈ t.tree? located depth id,
    tree.toNodes.countP (fun n => decide (n.kind = .doctype)) =
      if t.dom.kind? id = some .doctype then 1 else 0 := by
  cases depth with
  | zero => exact nofun
  | succ depth =>
    intro tree htree
    obtain ⟨s, hs, rfl⟩ := Option.map_eq_some_iff.1 htree
    rw [Dom.kind?, Dom.content?, hs]
    cases hc : s.content with
    | element name attrs =>
      simp [hc, Tree.toNodes_element, Content.kind?, Node.kind, Node.own, Own.kind]
    | _ => simp [hc, Tree.toNodes, Content.kind?, Node.kind, Node.own, Own.kind]

theorem countP_toNodesAll (depth : Nat) (ids : List NodeId) :
    (Tree.toNodesAll (ids.filterMap (t.tree? located depth))).countP
        (fun n => decide (n.kind = .doctype)) ≤
      ids.countP fun id => decide (t.dom.kind? id = some .doctype) := by
  induction ids with
  | nil => exact Nat.le_refl 0
  | cons id ids ih =>
    rw [List.countP_cons]
    cases htree : t.tree? located depth id with
    | none =>
      rw [List.filterMap_cons_none htree]
      omega
    | some tree =>
      rw [List.filterMap_cons_some htree, Tree.toNodesAll, List.countP_append,
        countP_toNodes depth id tree htree]
      simp only [decide_eq_true_eq]
      omega

end Tracked

/-! ## Parsed documents and fragments -/

theorem Session.Shadows.fit {s i : Session} {behind : List Char}
    (h : Shadows s.tokenizer.Waits behind s i) : Dom.Fit s.finish := by
  obtain ⟨stage, hfinish, hstage⟩ := h.finish
  obtain ⟨f, hecho⟩ := hstage.left.echo
  exact hfinish ▸ hecho.fit

theorem doctypesOnTop_ofEdits {es : List Edit} (h : Dom.Fit es) :
    (Tracked.ofEdits es).DoctypesOnTop := by
  rw [Tracked.DoctypesOnTop, dom_ofEdits]
  exact ⟨Dom.linked_ofEdits h, fun x hx => (Dom.doctype_ofEdits h hx).1⟩

/-- There are no more doctypes at the top than edits that make one. -/
theorem countP_top_le {es : List Edit} (h : Dom.Fit es) :
    (Dom.ofEdits es).top.toList.countP
        (fun id => decide ((Dom.ofEdits es).kind? id = some .doctype)) ≤
      es.countP Edit.isDoctype := by
  have hnodup := (Dom.linked_ofEdits h).nodup .document
  rw [List.countP_eq_length_filter, ← List.length_findIdxs (s := 0)]
  refine ((hnodup.filter _).subperm fun id hid => ?_).length_le
  obtain ⟨-, e, he, hdoctype⟩ := Dom.doctype_ofEdits h (of_decide_eq_true (List.mem_filter.1 hid).2)
  obtain ⟨hlt, rfl⟩ := List.getElem?_eq_some_iff.1 he
  exact List.mem_findIdxs_iff_exists_getElem_pos.2 ⟨hlt, hdoctype⟩

/-- Parsed trees are about nodes under construction. -/
theorem kind_of_mem_trees {es : List Edit} {located : Bool} {trees : List Tree}
    (htrees : ∀ tree ∈ trees, tree.All ((Tracked.ofEdits es).Shows located)) :
    ∀ c ∈ Tree.toNodesAll trees, c.All fun own => own.kind ≠ .document ∧ own.kind ≠ .fragment := by
  intro c hc m hm
  refine (Tree.forall_mem_toNodesAll.2 htrees c hc m hm).kind ?_
  rw [dom_ofEdits]
  exact Dom.hasNoDocument_ofEdits es

/-- What the parse of a document finds at the top, and below it. -/
theorem doctypes_documentTrees (options : ParseOptions) {es : List Edit} (h : Dom.Fit es) :
    (∀ c ∈ Tree.toNodesAll (documentTrees options (Tracked.ofEdits es)), ∀ d ∈ c.children,
      d.All (·.kind ≠ .doctype)) ∧
    (Tree.toNodesAll (documentTrees options (Tracked.ofEdits es))).countP
      (fun n => decide (n.kind = .doctype)) ≤ es.countP Edit.isDoctype := by
  constructor
  · intro c hc
    rw [Tree.toNodesAll_eq_flatMap] at hc
    obtain ⟨tree, hmem, hc⟩ := List.mem_flatMap.1 hc
    obtain ⟨id, -, htree⟩ := List.mem_filterMap.1 hmem
    exact (doctypesOnTop_ofEdits h).below _ id tree htree c hc
  · refine Nat.le_trans (Tracked.countP_toNodesAll _ _) ?_
    rw [dom_ofEdits]
    exact countP_top_le h

theorem doctypes_fragmentTrees (options : ParseOptions) {es : List Edit} (h : Dom.Fit es) :
    ∀ tree ∈ fragmentTrees options (Tracked.ofEdits es), tree.All (·.kind ≠ .doctype) := by
  intro tree hmem
  obtain ⟨root, hroot, hunder⟩ := List.mem_flatMap.1 hmem
  obtain ⟨hroot, hnamed⟩ := List.mem_filter.1 hroot
  obtain ⟨id, -, hid⟩ := List.mem_filterMap.1 hroot
  have hbelow := (doctypesOnTop_ofEdits h).below _ id root hid
  cases root with
  | element e children contents =>
    rw [Tree.toNodes_element, List.forall_mem_singleton] at hbelow
    exact Tree.forall_mem_toNodesAll.1 hbelow tree hunder
  | _ => cases hnamed

end Html

/-! ## Walks through documents -/

open Html

section

variable {σ ε : Type} {v : Visitor σ ε}

theorem Visitor.KeepsNodes.keepsShape (hv : v.KeepsNodes) : v.KeepsShape := by
  intro phase k f hf n parent s hk
  obtain ⟨t, ht⟩ := hv phase k f hf n parent s hk
  exact ⟨n, t, ht, rfl, rfl⟩

theorem exists_ok_recordWalk (hv : v.KeepsShape) {depth : Nat} {n : Node} (hn : n.height ≤ depth)
    (parent : Option Node) (s : σ) : ∃ r, (v.recordWalk depth parent n s).result = .ok r := by
  obtain ⟨-, -, hfailure⟩ := Visitor.recordWalk_sameShape hv depth parent hn s
  cases hr : (v.recordWalk depth parent n s).result with
  | error e => exact (hfailure e hr).elim
  | ok r => exact ⟨r, rfl⟩

/-- **A walk through a document** whose callbacks keep the shape comes to a document once on each
side, if there is no other one in the tree. -/
theorem countP_calls_document (hv : v.KeepsShape) {depth : Nat} {n : Node} (hn : n.height ≤ depth)
    (hroot : n.kind = .document)
    (hbelow : ∀ m ∈ Node.preorderAll n.children, m.kind ≠ .document) (s : σ) {phase : Phase}
    (hphase : (v.callback? phase .document).isSome = true) :
    (callsOf (v.recordWalk depth none n s).marks).countP
      (fun c => decide (c.phase = phase) && decide (c.kind = .document)) = 1 := by
  obtain ⟨r, hr⟩ := exists_ok_recordWalk hv hn none s
  have hnone : (Node.routeAll 0 n.children).countP
      (fun x => decide (x.phase = phase) && decide (x.kind = .document) && v.stopsAt x) = 0 := by
    have hzero : (Node.preorderAll n.children).countP (fun m => decide (m.kind = .document)) = 0 :=
      List.countP_eq_zero.2 fun m hm => by simpa using hbelow m hm
    rw [← Node.countP_routeAll phase (fun k => decide (k = .document)) 0] at hzero
    refine List.countP_eq_zero.2 fun x hx hstops => ?_
    exact List.countP_eq_zero.1 hzero x hx (Bool.and_eq_true_iff.1 hstops).1
  rw [countP_callsOf (fun side k => decide (side = phase) && decide (k = .document)),
    Visitor.stopsOf_recordWalk hv hr, List.countP_filter, n.route_eq, List.countP_cons,
    List.countP_append, hnone, hroot]
  cases phase <;> simp [Visitor.stopsAt, hphase]

/-- Where callbacks keep the shape, those called at the root are of its kind. -/
theorem kind_of_calls_root (hv : v.KeepsShape) {depth : Nat} {n : Node} (hn : n.height ≤ depth)
    {parent : Option Node} {s : σ} {c : Call ε}
    (hc : .calls [] c ∈ (v.recordWalk depth parent n s).marks) : c.kind = n.kind := by
  obtain ⟨r, hr⟩ := exists_ok_recordWalk hv hn parent s
  have hstop : (⟨c.phase, c.kind, []⟩ : Stop) ∈ n.route := by
    have hmem : (⟨c.phase, c.kind, []⟩ : Stop) ∈
        stopsOf (v.recordWalk depth parent n s).marks := List.mem_filterMap.2 ⟨_, hc, rfl⟩
    rw [Visitor.stopsOf_recordWalk hv hr] at hmem
    exact (List.mem_filter.1 hmem).1
  rw [n.route_eq, List.mem_cons, List.mem_append, List.mem_singleton] at hstop
  rcases hstop with hstop | hstop | hstop
  · exact congrArg Stop.kind hstop
  · exact absurd rfl (Node.pos_ne_nil_of_mem_routeAll hstop)
  · exact congrArg Stop.kind hstop

/-- Such a walk tells a parent to all callbacks that are told one. -/
theorem isSome_parent_of_mem_calls (hv : v.KeepsShape) {depth : Nat} {n : Node}
    (hn : n.height ≤ depth) (hroot : n.kind = .document) {s : σ} {c : Call ε}
    (hc : c ∈ callsOf (v.recordWalk depth none n s).marks) (hparent : c.kind.hasParent = true) :
    c.parent.isSome = true := by
  obtain ⟨x, hx, hcall⟩ := List.mem_filterMap.1 hc
  cases x with
  | begins | ends => cases hcall
  | calls pos d =>
    obtain rfl := Option.some.inj hcall
    obtain ⟨p, m, hbegins, hp⟩ := calls_begins hx
    rcases begins_sees hbegins with ⟨rfl, -⟩ | ⟨q, i, y, -, rfl, -⟩
    · -- At the root there is only the document.
      rw [kind_of_calls_root hv hn hx, hroot] at hparent
      cases hparent
    · rw [hp, parentFor, if_pos hparent]
      rfl

/-- A walk that returns all nodes as they are succeeds, and what it calls is as for any walk that
keeps the shape. -/
theorem traverse_document (hv : v.validate = .ok ()) (hnodes : v.KeepsNodes) {depth : Nat}
    {n : Node} (hn : n.height ≤ depth) (hroot : n.kind = .document)
    (hbelow : ∀ m ∈ Node.preorderAll n.children, m.kind ≠ .document) (s : σ) :
    ∃ calls t, v.traverse depth n s = (.ok n, t) ∧ v.MakesCalls depth n s calls ∧
      (∀ phase, (v.callback? phase .document).isSome = true →
        calls.countP (fun c => decide (c.phase = phase) && decide (c.kind = .document)) = 1) ∧
      ∀ c ∈ calls, c.kind ∈ [.element, .comment, .text] → c.parent.isSome = true := by
  have hshape := hnodes.keepsShape
  obtain ⟨r, hr⟩ := exists_ok_recordWalk hshape hn none s
  obtain ⟨-, hvalue, -⟩ := Visitor.recordWalk_eq hnodes depth none n s
  refine ⟨callsOf (v.recordWalk depth none n s).marks, (v.recordWalk depth none n s).state, ?_, ?_,
    fun _ => countP_calls_document hshape hn hroot hbelow s,
    fun c hc hkind => isSome_parent_of_mem_calls hshape hn hroot hc ?_⟩
  · rw [Visitor.traverse_of_valid hv, walk_eq_recordWalk, hr, hvalue r hr]
  · rw [← Visitor.record_of_valid hv]
    exact makesCalls_record v depth n s
  · simp only [List.mem_cons, List.not_mem_nil, or_false] at hkind
    rcases hkind with hkind | hkind | hkind <;> rw [hkind] <;> rfl

end

/-! ## Parsing -/

theorem children_parse (source : String) (options : ParseOptions) :
    (parse source options).children = Tree.toNodesAll (documentTrees options
      (Tracked.ofEdits ((Session.document options).feed source.toList).finish)) := by
  rw [parse, documentOf, Node.children, Node.children?, Option.getD_some]

theorem children_parseFragment (source : String) (options : ParseOptions) :
    (parseFragment source options).children = Tree.toNodesAll (fragmentTrees options
      (Tracked.ofEdits ((Session.fragment options).feed source.toList).finish)) := by
  rw [parseFragment, Node.children, Node.children?, Option.getD_some]

/-- **Parsed trees are in order.** A parsed document is the only document in it, has no fragment in
it, and at most one doctype, among its children; a parsed fragment is the only fragment in it, and
has neither documents nor doctypes in it. A walk of the document with callbacks that return the
nodes that they are given succeeds, calls the callbacks for documents once each, and tells a parent
to all callbacks for elements, comments and texts. -/
theorem parse_inOrder (source : String) (options : ParseOptions) :
    (parse source options).kind = .document ∧
    (∀ p m, (parse source options).at? p = some m →
      (m.kind = .document ∨ m.kind = .fragment → p = []) ∧
      (m.kind = .doctype → ∃ i, p = [i])) ∧
    (parse source options).count .doctype ≤ 1 ∧
    (parseFragment source options).kind = .fragment ∧
    (∀ p m, (parseFragment source options).at? p = some m →
      m.kind = .document ∨ m.kind = .fragment ∨ m.kind = .doctype → p = []) ∧
    ∀ (σ ε : Type) (v : Visitor σ ε), v.validate = .ok () → v.KeepsNodes →
      ∀ depth, (parse source options).height ≤ depth → ∀ s, ∃ calls t,
        v.traverse depth (parse source options) s = (.ok (parse source options), t) ∧
        v.MakesCalls depth (parse source options) s calls ∧
        (∀ phase, (v.callback? phase .document).isSome = true →
          calls.countP (fun c => decide (c.phase = phase) && decide (c.kind = .document)) = 1) ∧
        ∀ c ∈ calls, c.kind ∈ [.element, .comment, .text] → c.parent.isSome = true := by
  obtain ⟨_, hdocument⟩ := Session.shadows_feed_document options source.toList
  obtain ⟨_, hfragment⟩ := Session.shadows_feed_fragment options source.toList
  obtain ⟨hbelow, hcount⟩ := doctypes_documentTrees options hdocument.fit
  have hkinds := kind_of_mem_trees (Tracked.all_trees (Tracked.ofEdits
    ((Session.document options).feed source.toList).finish) options.sourceLines .document)
  have hkinds' := kind_of_mem_trees (all_fragmentTrees options (Tracked.ofEdits
    ((Session.fragment options).feed source.toList).finish))
  have hdoctypes := Tree.forall_mem_toNodesAll.2 (doctypes_fragmentTrees options hfragment.fit)
  rw [← documentTrees, ← children_parse] at hkinds
  rw [← children_parse] at hbelow hcount
  rw [← children_parseFragment] at hkinds' hdoctypes
  have hroot : (parse source options).kind = .document := rfl
  refine ⟨hroot, fun p m hm => ⟨fun hkind => ?_, fun hkind => ?_⟩, ?_, rfl, fun p m hm hkind => ?_,
    fun σ ε v hv hnodes depth hdepth s => ?_⟩
  · exact Node.eq_nil_of_at? hkinds hm fun h => hkind.elim (m.kind_own ▸ h.1) (m.kind_own ▸ h.2)
  · cases p with
    | nil =>
      obtain rfl := Option.some.inj hm
      rw [hroot] at hkind
      cases hkind
    | cons i p =>
      obtain ⟨c, hc, hm⟩ := Option.bind_eq_some_iff.1 hm
      have hp := Node.eq_nil_of_at? (hbelow c (List.mem_of_getElem? hc)) hm (by simpa using hkind)
      exact ⟨i, congrArg (i :: ·) hp⟩
  · rw [Node.count_eq_countP, Node.preorder_eq, List.countP_cons, hroot,
      Node.countP_preorderAll hbelow, if_neg (by decide), Nat.add_zero]
    exact Nat.le_trans hcount (Session.doctypes_feed_document options source.toList)
  · rcases hkind with hkind | hkind | hkind
    · exact Node.eq_nil_of_at? hkinds' hm fun h => (m.kind_own ▸ h.1) hkind
    · exact Node.eq_nil_of_at? hkinds' hm fun h => (m.kind_own ▸ h.2) hkind
    · exact Node.eq_nil_of_at? hdoctypes hm (by simpa using hkind)
  · refine traverse_document hv hnodes hdepth hroot (fun m hm => ?_) s
    obtain ⟨c, hc, hmc⟩ := Node.mem_preorderAll.1 hm
    exact (hkinds c hc m hmc).1

/-- In this document, which has a doctype, and a text among the contents of a template, both
callbacks for documents are called once, and all others are told a parent. -/
theorem parse_inOrder_template :
    countCalls.validate = .ok () ∧ countCalls.KeepsNodes ∧
    ((parse "<!doctype html><template>a</template>" {}).at? [1, 0, 0, 0]).map Node.kind =
      some .text ∧
    ((parse "<!doctype html><template>a</template>" {}).at? [0]).map Node.kind = some .doctype ∧
    ∃ calls t, countCalls.traverse 5 (parse "<!doctype html><template>a</template>" {}) 0 =
        (.ok (parse "<!doctype html><template>a</template>" {}), t) ∧
      countCalls.MakesCalls 5 (parse "<!doctype html><template>a</template>" {}) 0 calls ∧
      (∀ phase, calls.countP
        (fun c => decide (c.phase = phase) && decide (c.kind = .document)) = 1) ∧
      ∀ c ∈ calls, c.kind ∈ [.element, .comment, .text] → c.parent.isSome = true := by
  have hnodes : countCalls.KeepsNodes := by
    rintro (_ | _) k f hf n parent s - <;> cases hf <;> exact ⟨s + 1, rfl⟩
  obtain ⟨-, -, -, -, -, hwalk⟩ := parse_inOrder "<!doctype html><template>a</template>" {}
  obtain ⟨calls, t, hok, hcalls, honce, hparent⟩ :=
    hwalk Nat String countCalls rfl hnodes 5 (by decide +kernel) 0
  refine ⟨rfl, hnodes, by decide +kernel, by decide +kernel, calls, t, hok, hcalls, fun phase => ?_,
    hparent⟩
  exact honce phase (by cases phase <;> rfl)

end HtmlWalk
