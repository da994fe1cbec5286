import HtmlWalk.Proofs.Walk.Height
import HtmlWalk.Proofs.Walk.Tour

/-!
# Six visits or one walk

The nodes of the six kinds can be visited in six walks, one for each kind, or in one walk with all
the callbacks. Callbacks can in general tell the difference: they see the parent and the children,
and share a state. Callbacks that are *private* to their kind cannot (`PrivateTo`).

**Theorem (`passes_eq_traverse`).** If all callbacks are private to their kinds, the six visits, in
any order, succeed exactly when the one walk does, with the same tree and the same state.

To succeed, a walk with private callbacks does what a tour does (`Visitor.walk_ok?`), and tours of
one kind after the other are one tour.
-/

namespace HtmlWalk

variable {σ ε : Type}

/-! ## Private callbacks -/

/-- A callback for nodes of kind `k` that keeps the kind and the children. Whether it succeeds, and
what then becomes of the own data and of the state of the kind, is determined by these two, and the
states of the other kinds stay as they are. -/
def PrivateTo {τ : Kind → Type} (k : Kind) (f : Callback (∀ k, τ k) ε) : Prop :=
  ∃ act : Own → τ k → Option (Own × τ k),
    (∀ o t o' t', o.kind = k → act o t = some (o', t') → o'.kind = k) ∧
    ∀ n parent s, n.kind = k → (f n parent).ok? s =
      (act n.own (s k)).map fun p => (p.1.node n.children, Function.update s k p.2)

/-- What a callback does with the own data of a node, as it does it to a node without children
and parent. -/
def Callback.touch (f : Callback σ ε) (o : Own) : Attempt σ Own :=
  Node.own <$> (f (o.node []) none).ok?

namespace PrivateTo

variable {τ : Kind → Type} {k : Kind} {f : Callback (∀ k, τ k) ε} {o : Own}

theorem touch_apply (h : PrivateTo k f) : ∃ act : Own → τ k → Option (Own × τ k),
    (∀ o t o' t', o.kind = k → act o t = some (o', t') → o'.kind = k) ∧
    (∀ o s, o.kind = k → Callback.touch f o s =
      (act o (s k)).map fun p => (p.1, Function.update s k p.2)) ∧
    ∀ n parent, n.kind = k →
      (f n parent).ok? = (fun o => o.node n.children) <$> Callback.touch f n.own := by
  obtain ⟨act, hkind, hact⟩ := h
  have htouch : ∀ o s, o.kind = k → Callback.touch f o s =
      (act o (s k)).map fun p => (p.1, Function.update s k p.2) := by
    intro o s ho
    rw [Callback.touch, Attempt.map_apply, hact _ _ _ (by rw [Node.kind, Own.own_node, ho]),
      Own.own_node, Option.map_map]
    simp only [Function.comp_def, Own.own_node]
  refine ⟨act, hkind, htouch, ?_⟩
  intro n parent hn
  funext s
  rw [hact n parent s hn, Attempt.map_apply, htouch n.own s hn, Option.map_map]
  rfl

theorem height_le (h : PrivateTo k f) {n r : Node} (hn : n.kind = k) {parent : Option Node}
    {s t : ∀ k, τ k} (hr : f n parent s = (.ok r, t)) : r.height ≤ n.height := by
  obtain ⟨act, -, hact⟩ := h
  rw [← Run.ok?_eq_some_iff, hact n parent s hn, Option.map_eq_some_iff] at hr
  obtain ⟨⟨o, u⟩, -, heq⟩ := hr
  cases heq
  rw [n.height_eq]
  exact o.height_node_le n.children

theorem ok?_eq (h : PrivateTo k f) {n : Node} (hn : n.kind = k) (parent : Option Node) :
    (f n parent).ok? = (fun o => o.node n.children) <$> Callback.touch f n.own := by
  obtain ⟨-, -, -, hok⟩ := h.touch_apply
  exact hok n parent hn

theorem touch_yields (h : PrivateTo k f) (ho : o.kind = k) :
    (Callback.touch f o).Yields fun o' => o'.kind = k := by
  obtain ⟨act, hkind, htouch, -⟩ := h.touch_apply
  intro s o' t hs
  rw [htouch o s ho, Option.map_eq_some_iff] at hs
  obtain ⟨⟨a, u⟩, hact, heq⟩ := hs
  cases heq
  exact hkind o _ a u ho hact

theorem touch_within (h : PrivateTo k f) (ho : o.kind = k) : (Callback.touch f o).Within k := by
  obtain ⟨act, -, htouch, -⟩ := h.touch_apply
  exact ⟨act o, fun s => htouch o s ho⟩

end PrivateTo

/-! ## Walks with private callbacks -/

/-- The kinds of one side, with those before and after one of them. -/
theorem Phase.exists_order (phase : Phase) (k : Kind) :
    ∃ before after, phase.order = before ++ k :: after ∧ k ∉ before ∧ k ∉ after := by
  have hmem : k ∈ phase.order := by cases phase <;> cases k <;> decide
  have hnodup : phase.order.Nodup := by cases phase <;> decide
  obtain ⟨before, after, h⟩ := List.append_of_mem hmem
  rw [h, List.nodup_middle, List.nodup_cons, List.mem_append, not_or] at hnodup
  exact ⟨before, after, h, hnodup.1⟩

namespace Visitor

/-- What a visitor does with the own data of nodes. -/
def touches (v : Visitor σ ε) : Touches σ := fun phase o =>
  match v.callback? phase o.kind with
  | some f => Callback.touch f o
  | none => pure o

theorem foldlM_dispatch_of_notMem (v : Visitor σ ε) (phase : Phase) (parent : Option Node)
    {n : Node} {ks : List Kind} (h : n.kind ∉ ks) :
    ks.foldlM (v.dispatch phase parent) n = pure n := by
  induction ks with
  | nil => rfl
  | cons k ks ih =>
    rw [List.mem_cons, not_or] at h
    rw [List.foldlM_cons, dispatch, if_neg fun hk => h.1 ((k.matchesNode_iff n).1 hk), pure_bind]
    exact ih h.2

/-- All callbacks of a visitor are private to their kinds. -/
def Private {τ : Kind → Type} (v : Visitor (∀ k, τ k) ε) : Prop :=
  ∀ phase k f, v.callback? phase k = some f → PrivateTo k f

section Private

variable {τ : Kind → Type} {v : Visitor (∀ k, τ k) ε}

theorem Private.keepsKind (hv : v.Private) : v.touches.KeepsKind := by
  intro phase o
  unfold touches
  cases h : v.callback? phase o.kind with
  | none => exact .pure rfl
  | some f => exact (hv phase o.kind f h).touch_yields rfl

theorem Private.separate (hv : v.Private) : v.touches.Separate := by
  intro phase o
  unfold touches
  cases h : v.callback? phase o.kind with
  | none => exact .pure o.kind o
  | some f => exact (hv phase o.kind f h).touch_within rfl

theorem Private.dispatch_ok? (hv : v.Private) (phase : Phase) (parent : Option Node) (n : Node) :
    (v.dispatch phase parent n n.kind).ok? =
      (fun o => o.node n.children) <$> v.touches phase n.own := by
  rw [dispatch, if_pos ((n.kind.matchesNode_iff n).2 rfl), touches, n.kind_own]
  cases h : v.callback? phase n.kind with
  | none => rw [Run.ok?_pure, map_pure]; exact congrArg pure n.withChildren_children.symm
  | some f => rw [Run.ok?_lift]; exact (hv phase n.kind f h).ok?_eq rfl _

theorem Private.sweep_ok? (hv : v.Private) (phase : Phase) (parent : Option Node) (n : Node) :
    (v.sweep phase parent n).ok? = (fun o => o.node n.children) <$> v.touches phase n.own := by
  obtain ⟨before, after, horder, hbefore, hafter⟩ := phase.exists_order n.kind
  rw [sweep, horder, List.foldlM_append, v.foldlM_dispatch_of_notMem phase parent hbefore,
    pure_bind, List.foldlM_cons, Run.ok?_bind, hv.dispatch_ok?, map_eq_pure_bind, bind_assoc]
  refine (hv.keepsKind phase n.own).bind_congr ?_
  intro o ho
  have hk : (o.node n.children).kind ∉ after := by
    rwa [Node.kind, Own.own_node, ho]
  rw [pure_bind, v.foldlM_dispatch_of_notMem phase parent hk, Run.ok?_pure]

end Private

theorem visitChildren_ok? {visit : Node → Node → Run σ (Failure ε) Node} {f : Node → Attempt σ Node}
    (h : ∀ parent c, (visit parent c).ok? = f c) (n : Node) (done cs : List Node) :
    (visitChildren visit n done cs).ok? = (done ++ ·) <$> cs.mapM f := by
  induction cs generalizing done with
  | nil =>
    rw [visitChildren, Run.ok?_pure, List.mapM_nil, map_pure, List.append_nil]
  | cons c cs ih =>
    rw [visitChildren, Run.ok?_bind, h, ← map_append_mapM_cons]
    exact bind_congr fun r => ih (done ++ [r])

/-- **A walk as a tour.** To succeed, a walk with private callbacks that goes below the root does
what the tour does. -/
theorem Private.walk_ok? {τ : Kind → Type} {v : Visitor (∀ k, τ k) ε} (hv : v.Private)
    (hd : v.descends = true) (depth : Nat) (parent : Option Node) (n : Node) :
    (v.walk depth parent n).ok? = tour v.touches depth n := by
  induction depth generalizing parent n with
  | zero => rfl
  | succ depth ih =>
    rw [walk_succ, Run.ok?_bind, hv.sweep_ok?, map_eq_pure_bind, bind_assoc, tour_succ]
    refine (hv.keepsKind .enter n.own).bind_congr ?_
    intro o ho
    have hsame : (o.node n.children).children = n.children :=
      Own.children_node (ho ▸ n.hasChildren_or_children_eq_nil)
    have hbelow : (v.below (fun parent c => v.walk depth (some parent) c) (o.node n.children)).ok? =
        n.children.mapM (tour v.touches depth) >>= fun cs => pure (o.node cs) := by
      rw [below, if_pos hd, Run.ok?_map, visitChildren_ok? (fun parent c => ih (some parent) c),
        hsame]
      simp only [List.nil_append, map_eq_pure_bind, bind_pure, Node.withChildren, Own.own_node]
    rw [pure_bind, Run.ok?_bind, hbelow, bind_assoc]
    refine (yields_mapM_children _ n).bind_congr ?_
    intro cs hcs
    rw [pure_bind, hv.sweep_ok?, Own.own_node, Own.children_node (ho ▸ hcs), map_eq_pure_bind]

end Visitor

/-! ## One kind after the other -/

/-- The visit of the nodes of one kind. -/
def visitOnly : Kind → Nat → Node → KindVisitor σ ε → Run σ (Failure ε) Node
  | .document => visitDocument
  | .fragment => visitFragment
  | .doctype => visitDoctype
  | .element => visitElement
  | .comment => visitComment
  | .text => visitText

/-- Visit the nodes of one kind after those of another, each time in the whole tree that the visit
before has left. -/
def passes (hooks : Kind → Hooks σ ε) (depth : Nat) (order : List Kind) (n : Node) :
    Run σ (Failure ε) Node :=
  order.foldlM (fun n k => visitOnly k depth n { hooks := hooks k, descends := true }) n

/-- The visitor of one of the visits. -/
def passVisitor (hooks : Kind → Hooks σ ε) (k : Kind) : Visitor σ ε :=
  KindVisitor.toVisitor { hooks := hooks k, descends := true } k

theorem visitOnly_eq_walk (hooks : Kind → Hooks σ ε) (k : Kind) (depth : Nat) (n : Node) :
    visitOnly k depth n { hooks := hooks k, descends := true } =
      (passVisitor hooks k).walk depth none n := by
  cases k <;> rfl

theorem callback?_passVisitor (hooks : Kind → Hooks σ ε) (k l : Kind) (phase : Phase) :
    (passVisitor hooks k).callback? phase l =
      if l = k then ({ hooks } : Visitor σ ε).callback? phase l else none := by
  rw [passVisitor, KindVisitor.toVisitor, Visitor.visitChildNodes]
  show (Visitor.empty.setHooks k (hooks k)).callback? phase l = _
  rw [Visitor.callback?_setHooks]
  by_cases h : l = k
  · rw [if_pos h, if_pos h, h]
    rfl
  · rw [if_neg h, if_neg h]
    cases phase <;> rfl

theorem touches_passVisitor (hooks : Kind → Hooks σ ε) (k : Kind) :
    (passVisitor hooks k).touches = ({ hooks } : Visitor σ ε).touches.only [k] := by
  funext phase o
  unfold Visitor.touches Touches.only
  rw [callback?_passVisitor]
  by_cases h : o.kind = k
  · rw [if_pos h, if_pos (List.mem_singleton.2 h)]
  · rw [if_neg h, if_neg fun hmem => h (List.mem_singleton.1 hmem)]

section Passes

variable {τ : Kind → Type} {hooks : Kind → Hooks (∀ k, τ k) ε}

theorem Visitor.Private.passVisitor (h : ({ hooks } : Visitor _ ε).Private) (k : Kind) :
    (passVisitor hooks k).Private := by
  intro phase l f hf
  rw [callback?_passVisitor] at hf
  by_cases hl : l = k
  · rw [if_pos hl] at hf
    exact h phase l f hf
  · rw [if_neg hl] at hf
    cases hf

theorem Visitor.Private.keepsHeight {v : Visitor (∀ k, τ k) ε} (h : v.Private) (phase : Phase) :
    v.KeepsHeight phase :=
  fun k f hf _ _ _ _ _ hn hr => (h phase k f hf).height_le hn hr

theorem passes_ok? (h : ({ hooks } : Visitor _ ε).Private) (depth : Nat) (order : List Kind)
    (n : Node) : (passes hooks depth order n).ok? = order.foldlM
      (fun m k => tour (({ hooks } : Visitor _ ε).touches.only [k]) depth m) n := by
  rw [passes, Run.ok?_foldlM]
  congr 1
  funext m k
  rw [visitOnly_eq_walk, (h.passVisitor k).walk_ok? rfl, touches_passVisitor]

/-- The visits do not go too deep, each in the tree that the visit before has left. -/
theorem passes_not_tooDeep (h : ({ hooks } : Visitor _ ε).Private) {depth : Nat}
    (order : List Kind) {n : Node} (hn : n.height ≤ depth) :
    (passes hooks depth order n).Ends (·.height ≤ depth) (· ≠ .tooDeep) := by
  have hstep : ∀ (m : Node) (k : Kind), m.height ≤ depth →
      (visitOnly k depth m { hooks := hooks k, descends := true }).Ends (·.height ≤ depth)
        (· ≠ .tooDeep) := by
    intro m k hm
    have hkeeps := (h.passVisitor k).keepsHeight
    rw [visitOnly_eq_walk]
    exact (Visitor.walk_height_le hkeeps depth none hm).both
      (Visitor.walk_not_tooDeep (hkeeps .enter) depth none hm)
  exact Run.Ends.foldlM hstep order hn

/-- **Six visits or one walk.** Callbacks that are private to their kinds give the same tree and
the same state in one visit for each kind, in any order of the kinds, as in one walk; and the one
succeeds if the other does. Neither is stopped if it may go as deep as the tree is high. -/
theorem passes_eq_traverse (h : ∀ k phase f, (hooks k).get? phase = some f → PrivateTo k f)
    {order : List Kind} (horder : order.Perm Kind.enterOrder) (depth : Nat) (n : Node)
    (s : ∀ k, τ k) :
    (∀ r t, passes hooks depth order n s = (.ok r, t) ↔
      ({ hooks } : Visitor _ ε).traverse depth n s = (.ok r, t)) ∧
    (n.height ≤ depth → (passes hooks depth order n s).1 ≠ .error .tooDeep ∧
      (({ hooks } : Visitor _ ε).traverse depth n s).1 ≠ .error .tooDeep) := by
  have hv : ({ hooks } : Visitor _ ε).Private := fun phase k f hf => h k phase f hf
  have hall : ({ hooks } : Visitor _ ε).touches.only order = ({ hooks } : Visitor _ ε).touches := by
    funext phase o
    exact Touches.only_of_mem _ (horder.mem_iff.2 o.kind.mem_enterOrder) phase
  have hok : (passes hooks depth order n).ok? =
      (({ hooks } : Visitor _ ε).walk depth none n).ok? := by
    rw [passes_ok? hv, hv.walk_ok? rfl]
    cases order with
    | nil => cases horder.length_eq
    | cons k ks =>
      have hnodup : ([k] ++ ks).Nodup := horder.nodup_iff.2 (by decide)
      exact (foldlM_tour hv.keepsKind hv.separate hnodup depth n).trans
        (congrArg (tour · depth n) hall)
  rw [Visitor.traverse_of_valid rfl]
  constructor
  · intro r t
    rw [← Run.ok?_eq_some_iff, hok, Run.ok?_eq_some_iff]
  · intro hn
    have hpasses := passes_not_tooDeep hv order hn
    have hwalk := Visitor.walk_not_tooDeep (hv.keepsHeight .enter) depth none hn
    constructor
    · intro herr
      exact hpasses.of_error (Prod.ext herr rfl) rfl
    · intro herr
      exact hwalk.of_error (Prod.ext herr rfl) rfl

end Passes

/-- The callback that does this with the own data and the state of the kind, or fails. -/
def ownCallback {τ : Kind → Type} (k : Kind) (act : Own → τ k → Option (Own × τ k)) :
    Callback (∀ k, τ k) Unit := fun n _ s =>
  match act n.own (s k) with
  | some (o, t) => (.ok (o.node n.children), Function.update s k t)
  | none => (.error (), s)

theorem privateTo_ownCallback {τ : Kind → Type} {k : Kind} {act : Own → τ k → Option (Own × τ k)}
    (hkind : ∀ o t o' t', o.kind = k → act o t = some (o', t') → o'.kind = k) :
    PrivateTo k (ownCallback k act) := by
  refine ⟨act, hkind, ?_⟩
  intro n parent s _
  unfold ownCallback Run.ok?
  cases h : act n.own (s k) <;> simp only [h, Option.map_none, Option.map_some]

/-- Number the nodes of each kind in the order of their visits: the number becomes the line. -/
def number : Own → Nat → Option (Own × Nat)
  | .element e, t => some (.element { e with line := some t }, t + 1)
  | .comment c, t => some (.comment { c with line := some t }, t + 1)
  | .text x, t => some (.text { x with line := some t }, t + 1)
  | o, t => some (o, t + 1)

/-- Leave a node with a mark in the count, until the count is too high. -/
def countLeave (o : Own) (t : Nat) : Option (Own × Nat) := if t < 30 then some (o, t + 10) else none

/-- Count and number the nodes of each kind. -/
def numbering (k : Kind) : Hooks (∀ _ : Kind, Nat) Unit :=
  { enter := some (ownCallback k number), leave := some (ownCallback k countLeave) }

theorem privateTo_numbering (k : Kind) (phase : Phase) (f : Callback (∀ _ : Kind, Nat) Unit)
    (hf : (numbering k).get? phase = some f) : PrivateTo k f := by
  cases phase with
  | enter =>
    cases hf
    apply privateTo_ownCallback
    rintro o t o' t' rfl h
    cases o <;> cases h <;> rfl
  | leave =>
    cases hf
    apply privateTo_ownCallback
    rintro o t o' t' rfl h
    unfold countLeave at h
    split at h <;> cases h
    rfl

/-- Backwards through the kinds, the six visits count as the one walk does. -/
theorem passes_number_nodes :
    (∀ k phase f, (numbering k).get? phase = some f → PrivateTo k f) ∧
    Kind.leaveOrder.Perm Kind.enterOrder ∧
    (passes numbering 2 Kind.leaveOrder (.ofTag "p" [.ofText "a", .ofTag "q" [], .ofText "b"])
      fun _ => 0) =
      (.ok (.element ⟨"p", htmlNamespace, [], some 0⟩ [.text ⟨"a", some 0⟩,
        .element ⟨"q", htmlNamespace, [], some 1⟩ [], .text ⟨"b", some 11⟩]),
        fun k => match k with
          | .element | .text => 22
          | _ => 0) := by
  have horder : Kind.leaveOrder.Perm Kind.enterOrder := List.reverse_perm _
  refine ⟨privateTo_numbering, horder, ?_⟩
  rw [(passes_eq_traverse privateTo_numbering horder 2 _ _).1]
  apply Prod.ext
  · rfl
  · funext k
    cases k <;> rfl

end HtmlWalk
