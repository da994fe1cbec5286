import HtmlWalk.Proofs.Walk.Height

/-!
# Walks that keep the shape of a tree

The *route* through a tree stops at each node twice: before the route through its children, one
after the other, and after it.

**Theorem (`traverse_follows_route`).** If callbacks always succeed, and return a node of the same
kind with the same children, a walk makes its calls along the route through the tree that it is
given: one at each stop for which there is a callback, and no others. So each kind is entered, and
left, as often as there are nodes of the kind, and the result has the shape of the tree. If
callbacks return the nodes that they are given, the result is the tree.

What a walk of one node adds to the route is its two sweeps, in each of which only the kind of the
node comes to a callback (`Visitor.stopsOf_recordSweep`); the rest are the routes of the children,
below their places (`stopsOf_gather`).
-/

namespace HtmlWalk

variable {σ ε : Type}

/-! ## Routes -/

/-- A stop at a place: the side of its children, and the kind of the node. -/
structure Stop where
  /-- Whether the stop is before the children or after them. -/
  phase : Phase
  /-- The kind of the node. -/
  kind : Kind
  /-- The place of the node. -/
  pos : Position
deriving DecidableEq

/-- The stop as seen from the parent of the node to which its place is relative. -/
def Stop.under (i : Nat) (x : Stop) : Stop := { x with pos := i :: x.pos }

mutual

/-- The route through a tree: the node, the routes through its children, and the node again. -/
def Node.route : Node → List Stop
  | n@(.document _ cs) | n@(.fragment cs) | n@(.element _ cs) =>
    ⟨.enter, n.kind, []⟩ :: (Node.routeAll 0 cs ++ [⟨.leave, n.kind, []⟩])
  | n@(.doctype _) | n@(.comment _) | n@(.text _) => [⟨.enter, n.kind, []⟩, ⟨.leave, n.kind, []⟩]

/-- The routes through children one after the other, each below its place, from place `i` on. -/
def Node.routeAll : Nat → List Node → List Stop
  | _, [] => []
  | i, c :: cs => c.route.map (Stop.under i) ++ Node.routeAll (i + 1) cs

end

theorem Node.route_eq (n : Node) :
    n.route = ⟨.enter, n.kind, []⟩ :: (routeAll 0 n.children ++ [⟨.leave, n.kind, []⟩]) := by
  cases n <;> simp [route, children, children?, routeAll]

theorem Node.pos_ne_nil_of_mem_routeAll {x : Stop} {i : Nat} {cs : List Node}
    (h : x ∈ routeAll i cs) : x.pos ≠ [] := by
  induction cs generalizing i with
  | nil => cases h
  | cons c cs ih =>
    rcases List.mem_append.1 h with h | h
    · obtain ⟨y, -, rfl⟩ := List.mem_map.1 h
      exact List.cons_ne_nil i y.pos
    · exact ih h

mutual

/-- On either side a route stops once at each node. -/
theorem Node.countP_route (phase : Phase) (f : Kind → Bool) : ∀ n : Node,
    (n.route.countP fun x => decide (x.phase = phase) && f x.kind) =
      n.preorder.countP fun m => f m.kind
  | .document _ cs | .fragment cs | .element _ cs => by
    cases phase <;>
      simp [route, preorder, List.countP_cons, List.countP_append, countP_routeAll _ f 0 cs]
  | .doctype _ | .comment _ | .text _ => by
    cases phase <;> simp [route, preorder, List.countP_cons]

theorem Node.countP_routeAll (phase : Phase) (f : Kind → Bool) : ∀ (i : Nat) (cs : List Node),
    ((routeAll i cs).countP fun x => decide (x.phase = phase) && f x.kind) =
      (preorderAll cs).countP fun m => f m.kind
  | _, [] => rfl
  | i, c :: cs => by
    have hunder : (c.route.map (Stop.under i)).countP
        (fun x => decide (x.phase = phase) && f x.kind) = c.preorder.countP fun m => f m.kind :=
      List.countP_map.trans (countP_route phase f c)
    rw [routeAll, preorderAll, List.countP_append, List.countP_append, hunder,
      countP_routeAll phase f (i + 1) cs]

end

/-! ## The stops of a walk -/

/-- The stop at which a call is made, if the mark is one. -/
def Mark.stop? : Mark ε → Option Stop
  | .calls p c => some ⟨c.phase, c.kind, p⟩
  | .begins .. | .ends .. => none

/-- The stops at which calls are made, in order. -/
def stopsOf (marks : List (Mark ε)) : List Stop := marks.filterMap Mark.stop?

@[simp] theorem stopsOf_append (xs ys : List (Mark ε)) :
    stopsOf (xs ++ ys) = stopsOf xs ++ stopsOf ys := List.filterMap_append

theorem stopsOf_under (i : Nat) (xs : List (Mark ε)) :
    stopsOf (xs.map (Mark.under i)) = (stopsOf xs).map (Stop.under i) := by
  rw [stopsOf, stopsOf, List.filterMap_map, List.map_filterMap]
  congr 1
  funext x
  cases x <;> rfl

/-- The calls are those at the stops. -/
theorem countP_callsOf (p : Phase → Kind → Bool) (marks : List (Mark ε)) :
    ((callsOf marks).countP fun c => p c.phase c.kind) =
      (stopsOf marks).countP fun x => p x.phase x.kind := by
  induction marks with
  | nil => rfl
  | cons x xs ih =>
    cases x with
    | calls q c =>
      show (c :: callsOf xs).countP _ = (⟨c.phase, c.kind, q⟩ :: stopsOf xs).countP _
      rw [List.countP_cons, List.countP_cons, ih]
    | begins | ends => exact ih

/-- Visits that each keep to a route make a walk over the children that does so. -/
theorem stopsOf_gather {α : Type} {f : Stop → Bool} (hf : ∀ i x, f (x.under i) = f x)
    {cs : List Node} {records : List (Record σ ε α)}
    (h : List.Forall₂ (fun c q => stopsOf q.marks = c.route.filter f) cs records) (i : Nat) :
    stopsOf (gather i (records.map (·.marks))) = (Node.routeAll i cs).filter f := by
  induction h generalizing i with
  | nil => rfl
  | cons hc _ ih =>
    rw [List.map_cons, gather, Node.routeAll, stopsOf_append, stopsOf_under, hc, ih,
      List.filter_append, List.filter_map]
    simp only [Function.comp_def, hf]

namespace Visitor

variable {v : Visitor σ ε} {phase : Phase} {parent : Option Node} {n : Node}

/-- Whether a visitor stops: it has a callback there, and its walk goes that far. -/
def stopsAt (v : Visitor σ ε) (x : Stop) : Bool :=
  (v.callback? x.phase x.kind).isSome && (v.descends || x.pos.isEmpty)

/-- Callbacks always succeed, and return a node of the same kind with the same children. -/
def KeepsShape (v : Visitor σ ε) : Prop :=
  ∀ phase k f, v.callback? phase k = some f → ∀ n parent s, n.kind = k →
    ∃ r t, f n parent s = (.ok r, t) ∧ r.kind = n.kind ∧ r.children = n.children

/-- Callbacks always succeed, and return the node that they are given. -/
def KeepsNodes (v : Visitor σ ε) : Prop :=
  ∀ phase k f, v.callback? phase k = some f → ∀ n parent s, n.kind = k →
    ∃ t, f n parent s = (.ok n, t)

/-! ## Sweeps -/

theorem recordSweep_keepsShape (hv : v.KeepsShape) (phase : Phase) (parent : Option Node)
    (n : Node) : (v.recordSweep phase parent n).Ensures (fun _ => True)
      (fun m => m.kind = n.kind ∧ m.children = n.children) fun _ => False := by
  refine recordSweep_ensures ?_ (fun _ _ _ => trivial) parent ⟨rfl, rfl⟩
  rintro k f hf m p s hk ⟨hkind, hchildren⟩
  obtain ⟨r, t, hr, hrk, hrc⟩ := hv phase k f hf m p s hk
  rw [hr]
  constructor
  · rintro _ _ ⟨⟩
    exact ⟨hrk.trans hkind, hrc.trans hchildren⟩
  · rintro _ _ ⟨⟩

/-- The stops of one side at a node, of the kinds that are tried. -/
def stopsFor (v : Visitor σ ε) (phase : Phase) (n : Node) (ks : List Kind) : List Stop :=
  (ks.filter fun k => (v.callback? phase k).isSome && k.matchesNode n).map (⟨phase, ·, []⟩)

theorem stopsFor_congr {m : Node} (h : m.kind = n.kind) (ks : List Kind) :
    v.stopsFor phase m ks = v.stopsFor phase n ks := by
  have hmatch : ∀ k : Kind, k.matchesNode m = k.matchesNode n := fun k =>
    Bool.eq_iff_iff.2 (by rw [k.matchesNode_iff, k.matchesNode_iff, h])
  simp only [stopsFor, hmatch]

theorem recordDispatch_stops (hv : v.KeepsShape) (phase : Phase) (parent : Option Node) (n : Node)
    (k : Kind) (s : σ) : ∃ m, (v.recordDispatch phase parent n k s).result = .ok m ∧
      m.kind = n.kind ∧
      stopsOf (v.recordDispatch phase parent n k s).marks = v.stopsFor phase n [k] := by
  rw [stopsFor, List.filter_singleton]
  unfold recordDispatch
  by_cases hk : k.matchesNode n = true
  · rw [if_pos hk, hk, Bool.and_true]
    cases hf : v.callback? phase k with
    | none => exact ⟨n, rfl, rfl, rfl⟩
    | some f =>
      obtain ⟨r, t, hr, hrk, -⟩ :=
        hv phase k f hf n (parentFor k parent) s ((k.matchesNode_iff n).1 hk)
      refine ⟨r, ?_, hrk, rfl⟩
      show (f n (parentFor k parent) s).1.mapError Failure.raised = .ok r
      rw [hr]
      rfl
  · rw [if_neg hk, Bool.eq_false_iff.2 hk, Bool.and_false]
    exact ⟨n, rfl, rfl, rfl⟩

theorem foldlM_recordDispatch_stops (hv : v.KeepsShape) (phase : Phase) (parent : Option Node)
    (ks : List Kind) (n : Node) (s : σ) :
    ∃ m, (ks.foldlM (v.recordDispatch phase parent) n s).result = .ok m ∧
      stopsOf (ks.foldlM (v.recordDispatch phase parent) n s).marks = v.stopsFor phase n ks := by
  induction ks generalizing n s with
  | nil => exact ⟨n, rfl, rfl⟩
  | cons k ks ih =>
    obtain ⟨m, hm, hkind, hstops⟩ := recordDispatch_stops hv phase parent n k s
    obtain ⟨r, hr, hrest⟩ := ih m (v.recordDispatch phase parent n k s).state
    rw [List.foldlM_cons, Recorder.bind_of_ok hm]
    refine ⟨r, hr, ?_⟩
    rw [stopsOf_append, hstops, hrest, stopsFor_congr hkind, stopsFor, stopsFor, stopsFor,
      ← List.map_append, ← List.filter_append, List.singleton_append]

/-- **A sweep makes one stop**, for the kind of the node, if there is a callback for it. -/
theorem stopsOf_recordSweep (hv : v.KeepsShape) (phase : Phase) (parent : Option Node) (n : Node)
    (s : σ) : stopsOf (v.recordSweep phase parent n s).marks =
      [⟨phase, n.kind, []⟩].filter v.stopsAt := by
  obtain ⟨m, hm, hstops⟩ := foldlM_recordDispatch_stops hv phase parent phase.order n s
  have hkinds : (phase.order.filter fun k => k.matchesNode n) = [n.kind] := by
    cases phase <;> cases n <;> rfl
  have hone : v.stopsFor phase n phase.order = [⟨phase, n.kind, []⟩].filter v.stopsAt := by
    rw [stopsFor, ← List.filter_filter, hkinds]
    simp only [List.filter_singleton, stopsAt, List.isEmpty_nil, Bool.or_true, Bool.and_true]
    cases (v.callback? phase n.kind).isSome <;> rfl
  unfold recordSweep
  rw [Recorder.note_bind, Recorder.bind_of_ok hm, ← hone, ← hstops]
  show stopsOf (_ ++ [_]) = _
  rw [stopsOf_append]
  exact List.append_nil _

/-! ## Walks -/

/-- **The stops of a walk** that succeeds are those of the route at which the visitor stops. -/
theorem stopsOf_recordWalk (hv : v.KeepsShape) {depth : Nat} {r : Node} {s : σ}
    (h : (v.recordWalk depth parent n s).result = .ok r) :
    stopsOf (v.recordWalk depth parent n s).marks = n.route.filter v.stopsAt := by
  induction depth generalizing parent n r s with
  | zero => cases h
  | succ depth ih =>
    obtain ⟨records, results, m, m', t, hmarks, hm, hvisits, hall, -⟩ := recordWalk_of_ok v h
    obtain ⟨hkind, hchildren⟩ := (recordSweep_keepsShape hv .enter parent n s).value m hm
    have hbelow : stopsOf (gather 0 (records.map (·.marks))) =
        (Node.routeAll 0 n.children).filter v.stopsAt ∧ m'.kind = n.kind := by
      by_cases hd : v.descends = true
      · rw [if_pos hd] at hall
        obtain ⟨hlen, rfl⟩ := hall
        have hf : ∀ i x, v.stopsAt (x.under i) = v.stopsAt x := by
          simp [stopsAt, Stop.under, hd]
        rw [← hchildren, Node.kind_withChildren]
        refine ⟨stopsOf_gather hf ((hvisits.complete hlen).imp fun c q hq => ?_) 0, hkind⟩
        obtain ⟨x, u, r', rfl, hr'⟩ := hq
        exact ih hr'
      · -- All stops below the root are too far.
        rw [if_neg hd] at hall
        obtain ⟨rfl, rfl⟩ := hall
        refine ⟨(List.filter_eq_nil_iff.2 fun x hx => ?_).symm, hkind⟩
        have hpos := Node.pos_ne_nil_of_mem_routeAll hx
        simp [stopsAt, hd, hpos]
    rw [hmarks, stopsOf_append, stopsOf_append, stopsOf_recordSweep hv, stopsOf_recordSweep hv,
      hbelow.1, hbelow.2, n.route_eq, ← List.filter_append, ← List.filter_append]
    rfl

end Visitor

/-- What a node shows of the shape of its tree: its kind, and how many children it has. -/
def Node.shape (n : Node) : Kind × Nat := (n.kind, n.children.length)

/-- Two trees have the same places, with nodes of the same kinds and as many children. -/
def Node.SameShape (n r : Node) : Prop := ∀ p, (r.at? p).map shape = (n.at? p).map shape

theorem Node.SameShape.of_children {n r : Node} (hkind : r.kind = n.kind)
    (hchildren : List.Forall₂ SameShape n.children r.children) : n.SameShape r := by
  intro p
  cases p with
  | nil => exact congrArg some (Prod.ext hkind hchildren.length_eq.symm)
  | cons i p =>
    refine map_at?_cons hchildren.length_eq.symm fun c d hc hd => ?_
    obtain ⟨hi, rfl⟩ := List.getElem?_eq_some_iff.1 hc
    obtain ⟨hj, rfl⟩ := List.getElem?_eq_some_iff.1 hd
    exact hchildren.get hi hj p

namespace Visitor

variable {v : Visitor σ ε} {parent : Option Node} {n : Node}

/-- A walk with callbacks that keep the shape succeeds, with a tree of the same shape. -/
theorem recordWalk_sameShape (hv : v.KeepsShape) (depth : Nat) (parent : Option Node)
    (hn : n.height ≤ depth) :
    (v.recordWalk depth parent n).Ensures (fun _ => True) n.SameShape fun _ => False := by
  induction depth generalizing parent n with
  | zero => rw [n.height_eq] at hn; omega
  | succ depth ih =>
    refine recordWalk_ensures (R := Node.SameShape) (recordSweep_keepsShape hv .enter parent n)
      (fun _ _ (_ : True) => trivial) ?_ ?_
    · rintro m ⟨-, hchildren⟩ p c hc
      exact ih (some p) (Node.height_le_succ.1 hn c (hchildren ▸ hc))
    · rintro m m' ⟨hkind, hchildren⟩ hm'
      refine (recordSweep_keepsShape hv .leave parent m').mono (fun _ h => h) ?_ fun _ h => h
      rintro r ⟨hrk, hrc⟩
      rcases hm'.cases with ⟨-, cs, hcs, rfl⟩ | ⟨-, rfl⟩
      · rw [Node.kind_withChildren] at hrk
        rw [Node.children_withChildren_of_length hcs.length_eq.symm] at hrc
        exact .of_children (hrk.trans hkind) (hrc ▸ hchildren ▸ hcs)
      · refine .of_children (hrk.trans hkind) ?_
        rw [hrc, hchildren]
        exact List.forall₂_same.2 fun c _ p => rfl

/-- A walk with callbacks that return their nodes returns the tree. -/
theorem recordWalk_eq (hv : v.KeepsNodes) (depth : Nat) (parent : Option Node) (n : Node) :
    (v.recordWalk depth parent n).Ensures (fun _ => True) (n = ·) fun _ => True := by
  have hsweep : ∀ phase parent (m : Node),
      (v.recordSweep phase parent m).Ensures (fun _ => True) (m = ·) fun _ => True := by
    intro phase parent m
    refine recordSweep_ensures ?_ (fun _ _ _ => trivial) parent rfl
    rintro k f hf _ p s hk rfl
    obtain ⟨t, ht⟩ := hv phase k f hf m p s hk
    rw [ht]
    exact ⟨fun _ _ h => by cases h; rfl, fun _ _ _ => trivial⟩
  induction depth generalizing parent n with
  | zero => exact .fail trivial
  | succ depth ih =>
    refine recordWalk_ensures (R := Eq) (hsweep .enter parent n)
      (fun _ _ (_ : True) => trivial) ?_ ?_
    · exact fun m _ p c _ => ih (some p) c
    · rintro m m' rfl hm'
      have hsame : m' = n := by
        rcases hm'.cases with ⟨-, cs, hcs, rfl⟩ | ⟨-, rfl⟩
        · rw [List.forall₂_eq_eq_eq] at hcs
          rw [← hcs, Node.withChildren_children]
        · rfl
      exact hsame ▸ hsweep .leave parent m'

end Visitor

/-! ## Counting -/

/-- Along a route that stops at all places of one sort, the calls of this sort are as many as the
nodes of the kinds in question. -/
theorem countP_calls_of_route {v : Visitor σ ε} {n : Node} {marks : List (Mark ε)}
    (hstops : stopsOf marks = n.route.filter v.stopsAt) (hd : v.descends = true) (phase : Phase)
    (f : Kind → Bool) (hf : ∀ k, f k = true → (v.callback? phase k).isSome = true) :
    ((callsOf marks).countP fun c => decide (c.phase = phase) && f c.kind) =
      n.preorder.countP fun m => f m.kind := by
  rw [countP_callsOf (fun side k => decide (side = phase) && f k), hstops, List.countP_filter,
    ← n.countP_route phase f]
  refine List.countP_congr fun x _ => ?_
  simp only [Bool.and_eq_true, decide_eq_true_eq, and_iff_left_iff_imp]
  rintro ⟨rfl, hk⟩
  simp [Visitor.stopsAt, hd, hf x.kind hk]

/-- **A walk that keeps the shape follows the route.** Its calls are made at the stops of the route
through the tree for which there are callbacks. So the calls for a kind on one side are as many as
the nodes of the kind, and the calls on entering, if there are callbacks for all kinds, as many as
the nodes. The walk succeeds with a tree of the same shape, with the tree itself if callbacks return
the nodes that they are given. -/
theorem traverse_follows_route {v : Visitor σ ε} (hv : v.validate = .ok ()) (hshape : v.KeepsShape)
    {depth : Nat} {n : Node} (hn : n.height ≤ depth) (s : σ) :
    v.MakesCalls depth n s (callsOf (v.record depth n s).marks) ∧
    stopsOf (v.record depth n s).marks = n.route.filter v.stopsAt ∧
    (v.descends = true →
      (∀ phase k, (v.callback? phase k).isSome →
        ((callsOf (v.record depth n s).marks).countP fun c => c.phase = phase ∧ c.kind = k) =
          n.count k) ∧
      ((∀ k, (v.callback? .enter k).isSome) →
        ((callsOf (v.record depth n s).marks).countP fun c => c.phase = .enter) = n.size)) ∧
    ∃ r t, v.traverse depth n s = (.ok r, t) ∧ n.SameShape r ∧ (v.KeepsNodes → r = n) := by
  obtain ⟨-, hvalue, hfailure⟩ := Visitor.recordWalk_sameShape hshape depth none hn s
  cases hr : (v.recordWalk depth none n s).result with
  | error e => exact (hfailure e hr).elim
  | ok r =>
    have hstops := Visitor.stopsOf_recordWalk hshape hr
    refine ⟨makesCalls_record v depth n s, ?_⟩
    rw [Visitor.record_of_valid hv]
    refine ⟨hstops, fun hd => ⟨fun phase k hk => ?_, fun hall => ?_⟩, ?_⟩
    · have hcount := countP_calls_of_route hstops hd phase (fun l => decide (l = k))
        fun l hl => of_decide_eq_true hl ▸ hk
      rw [n.count_eq_countP, ← hcount]
      simp only [Bool.decide_and]
    · have hcount := countP_calls_of_route hstops hd .enter (fun _ => true) fun k _ => hall k
      rw [← n.length_preorder, ← List.countP_true, ← hcount]
      simp only [Bool.and_true]
    · refine ⟨r, (v.recordWalk depth none n s).state, ?_, hvalue r hr, fun hsame => ?_⟩
      · rw [Visitor.traverse_of_valid hv, walk_eq_recordWalk, hr]
      · exact ((Visitor.recordWalk_eq hsame depth none n s).value r hr).symm

/-- The visitor that numbers elements when it enters them, and counts texts when it leaves them. -/
def numberElements : Visitor Nat String where
  hooks
    | .element => { enter := some fun n _ count => match n with
        | .element e cs => (.ok (.element { e with line := some count } cs), count + 1)
        | n => (.ok n, count) }
    | .text => { leave := some fun n _ count => (.ok n, count + 10) }
    | _ => {}

theorem keepsShape_numberElements : numberElements.KeepsShape := by
  intro phase k f hf n parent s hk
  cases phase <;> cases k <;> cases hf
  · cases n <;> exact ⟨_, _, rfl, rfl, rfl⟩
  · exact ⟨_, _, rfl, rfl, rfl⟩

/-- An element with a text and an element in it is entered first and last, and the text is left in
between; no other calls are made. -/
theorem traverse_follows_route_numberElements :
    numberElements.KeepsShape ∧
    stopsOf (numberElements.record 2 (.ofTag "p" [.ofText "a", .ofTag "q" []]) 0).marks =
      [⟨.enter, .element, []⟩, ⟨.leave, .text, [0]⟩, ⟨.enter, .element, [1]⟩] ∧
    numberElements.traverse 2 (.ofTag "p" [.ofText "a", .ofTag "q" []]) 0 =
      (.ok (.element ⟨"p", htmlNamespace, [], some 0⟩
        [.ofText "a", .element ⟨"q", htmlNamespace, [], some 11⟩ []]), 12) := by
  have hheight : (Node.ofTag "p" [.ofText "a", .ofTag "q" []]).height ≤ 2 := by decide
  have h := traverse_follows_route rfl keepsShape_numberElements hheight 0
  exact ⟨keepsShape_numberElements, h.2.1, rfl⟩

end HtmlWalk
