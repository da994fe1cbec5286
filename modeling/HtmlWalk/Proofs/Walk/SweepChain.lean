import Mathlib.Data.List.Chain
import HtmlWalk.Proofs.Walk.Context
import HtmlWalk.Proofs.Walk.Faults

/-!
# The calls of one sweep

**Theorem (`traverse_sweeps`).** On each side of each position of a walk there is at most one sweep,
and its calls are a chain (`Chain`): the first call is for the kind of the node with which the sweep
begins, each call is given the node that the one before it returned and is for the kind of that
node, and each kind is later than the one before it in the order of the side. The chain ends with a
call that fails, or as soon as there is no callback for the kind of the node, or the kind is not
later than that of the last call. The last sweep at a position begins with a node of the kind with
which the first one ends, as the walk over the children changes no kind. Where a walk arrives it
makes both sweeps, unless it is cut off right there or below (`CutOff`).

The chain is an induction along the kinds that a sweep tries (`foldlM_recordDispatch_chain`), for
which all that matters of an order is that it names no kind twice; that the marks of a walk on one
side of a position are those of one sweep is an induction on the depth (`recordWalk_sweeps`), and
that the last sweep is made is one on the position (`recordWalk_left_or_cutOff`).
-/

namespace HtmlWalk

variable {σ ε : Type}

/-! ## The two orders -/

/-- Whether a kind comes after another in the order of one side. -/
def Phase.Later : Phase → Kind → Kind → Prop
  | .enter, k, l => l.index < k.index
  | .leave, k, l => k.index < l.index

namespace Phase.Later

variable {phase : Phase} {k l : Kind}

theorem irrefl (phase : Phase) (k : Kind) : ¬ phase.Later k k := by
  cases phase <;> exact Nat.lt_irrefl _

theorem asymm (h : phase.Later k l) : ¬ phase.Later l k := by
  cases phase <;> exact Nat.lt_asymm h

end Phase.Later

theorem Phase.mem_order (phase : Phase) (k : Kind) : k ∈ phase.order := by
  cases phase with
  | enter => exact Kind.mem_enterOrder k
  | leave => exact List.mem_reverse.2 (Kind.mem_enterOrder k)

/-- In the order of a side each kind is later than all before it. -/
theorem Phase.order_later (phase : Phase) : phase.order.Pairwise fun l k => phase.Later k l := by
  cases phase <;> simp [order, Kind.enterOrder, Kind.leaveOrder, Later, Kind.index]

/-! ## Chains of calls -/

namespace Visitor

/-- Whether there is a callback for the kind of a node. -/
def Meets (v : Visitor σ ε) (phase : Phase) (n : Node) : Prop :=
  (v.callback? phase n.kind).isSome

end Visitor

/-- The calls of a sweep over some kinds under a parent, the node with which it begins, and the one
with which it ends unless a call fails. -/
structure Chain (v : Visitor σ ε) (phase : Phase) (parent : Option Node) (ks : List Kind) (n : Node)
    (calls : List (Call ε)) (last : Option Node) : Prop where
  /-- The calls are made on this side, with what the kind lets them know of the parent. -/
  place : ∀ c ∈ calls, c.At phase parent
  /-- Each call is for the kind of its node, for which there is a callback. -/
  kind : ∀ c ∈ calls, c.kind = c.node.kind ∧ v.Meets phase c.node
  /-- The first call is given the node with which the sweep begins. -/
  first : ∀ c, calls.head? = some c → c.node = n
  /-- Each other call is given the node that the call before it returned. -/
  next : calls.IsChain fun c d => c.outcome = .ok d.node
  /-- The kinds are among those that are tried, and in their order. -/
  order : (calls.map (·.kind)).Sublist ks
  /-- The sweep ends with the node that the last call returned, or with the one it begins with. -/
  result : ∀ m, last = some m →
    calls.getLast?.elim (m = n) fun c => c.outcome = .ok m
  /-- It ends there because no callback is left for the node: there is none for its kind, or its
  kind is not later than that of the last call. -/
  stop : ∀ m, last = some m → m.kind ∈ ks → v.Meets phase m →
    ∃ c, calls.getLast? = some c ∧ ¬ phase.Later m.kind c.kind
  /-- Or it is cut off by a call that fails. -/
  fail : last = none → ∃ c e, calls.getLast? = some c ∧ c.outcome = .error e

namespace Chain

variable {v : Visitor σ ε} {phase : Phase} {parent last : Option Node} {k : Kind} {ks : List Kind}
  {n m : Node} {calls : List (Call ε)} {c : Call ε} {e : ε}

theorem nil (v : Visitor σ ε) (phase : Phase) (parent : Option Node) (n : Node) :
    Chain v phase parent [] n [] (some n) where
  place := nofun
  kind := nofun
  first := nofun
  next := .nil
  order := .slnil
  result _ h := (Option.some.inj h).symm
  stop _ _ h := nomatch h
  fail := nofun

theorem kind_mem (h : Chain v phase parent ks n calls last) (hc : c ∈ calls) : c.kind ∈ ks :=
  h.order.subset (List.mem_map_of_mem hc)

/-- A kind that is tried in vain. -/
theorem skip (hks : ∀ l ∈ ks, phase.Later l k) (hn : n.kind = k → ¬ v.Meets phase n)
    (h : Chain v phase parent ks n calls last) : Chain v phase parent (k :: ks) n calls last where
  place := h.place
  kind := h.kind
  first := h.first
  next := h.next
  order := h.order.cons k
  result := h.result
  stop m hm hk hmeets := by
    rcases List.mem_cons.1 hk with hk | hk
    · have hlast := h.result m hm
      cases hc : calls.getLast? with
      | none =>
        rw [hc] at hlast
        cases hlast
        exact absurd hmeets (hn hk)
      | some c =>
        -- The last call is for one of the kinds that come after this one.
        exact ⟨c, rfl, hk ▸ (hks _ (h.kind_mem (List.mem_of_getLast? hc))).asymm⟩
    · exact h.stop m hm hk hmeets
  fail := h.fail

/-- A call that fails. -/
theorem failed (hc : c.At phase parent) (hkind : c.kind = c.node.kind)
    (hmeets : v.Meets phase c.node) (he : c.outcome = .error e) :
    Chain v phase parent (c.kind :: ks) c.node [c] none where
  place d hd := List.mem_singleton.1 hd ▸ hc
  kind d hd := List.mem_singleton.1 hd ▸ ⟨hkind, hmeets⟩
  first d hd := by cases hd; rfl
  next := .singleton c
  order := (List.nil_sublist ks).cons_cons c.kind
  result := nofun
  stop := nofun
  fail _ := ⟨c, e, rfl, he⟩

/-- A call that succeeds, before the calls for the kinds after its own. -/
theorem cons (hks : ∀ l ∈ ks, phase.Later l c.kind) (hc : c.At phase parent)
    (hkind : c.kind = c.node.kind) (hmeets : v.Meets phase c.node) (hm : c.outcome = .ok m)
    (h : Chain v phase parent ks m calls last) :
    Chain v phase parent (c.kind :: ks) c.node (c :: calls) last where
  place := List.forall_mem_cons.2 ⟨hc, h.place⟩
  kind := List.forall_mem_cons.2 ⟨⟨hkind, hmeets⟩, h.kind⟩
  first d hd := by cases hd; rfl
  next := List.IsChain.cons h.next fun d hd => by rw [h.first d hd, hm]
  order := h.order.cons_cons c.kind
  result r hr := by
    have hlast := h.result r hr
    cases hd : calls.getLast? with
    | none =>
      rw [hd] at hlast
      rw [List.getLast?_eq_none_iff.1 hd]
      exact hm.trans (congrArg _ hlast.symm)
    | some d =>
      rw [hd] at hlast
      rw [List.getLast?_cons, hd]
      exact hlast
  stop r hr hk hmeets := by
    rw [List.getLast?_cons]
    cases hd : calls.getLast? with
    | none =>
      refine ⟨c, rfl, ?_⟩
      rcases List.mem_cons.1 hk with hk | hk
      · exact hk ▸ Phase.Later.irrefl phase c.kind
      · obtain ⟨d, hd', -⟩ := h.stop r hr hk hmeets
        rw [hd] at hd'
        cases hd'
    | some d =>
      refine ⟨d, rfl, ?_⟩
      rcases List.mem_cons.1 hk with hk | hk
      · exact hk ▸ (hks _ (h.kind_mem (List.mem_of_getLast? hd))).asymm
      · obtain ⟨d', hd', hlater⟩ := h.stop r hr hk hmeets
        rw [hd] at hd'
        cases hd'
        exact hlater
  fail hl := by
    obtain ⟨d, e, hd, he⟩ := h.fail hl
    exact ⟨d, e, by rw [List.getLast?_cons, hd]; rfl, he⟩

/-- If there is a callback for the kind of the node with which the sweep begins, it is called. -/
theorem start (h : Chain v phase parent ks n calls last) (hk : n.kind ∈ ks)
    (hmeets : v.Meets phase n) : ∃ c, calls.head? = some c ∧ c.kind = n.kind := by
  cases calls with
  | cons c calls =>
    refine ⟨c, rfl, ?_⟩
    rw [(h.kind c (by simp)).1, h.first c rfl]
  | nil =>
    cases last with
    | none =>
      obtain ⟨c, e, hc, -⟩ := h.fail rfl
      cases hc
    | some m =>
      obtain rfl : m = n := h.result m rfl
      obtain ⟨c, hc, -⟩ := h.stop m rfl hk hmeets
      cases hc

/-- Each kind is later than those of all calls before it. -/
theorem increasing (h : Chain v phase parent phase.order n calls last) :
    calls.Pairwise fun c d => phase.Later d.kind c.kind :=
  List.pairwise_map.1 (phase.order_later.sublist h.order)

end Chain

/-! ## Sweeps -/

/-- A kind is tried by a call of its callback, or in vain. -/
theorem recordDispatch_cases (v : Visitor σ ε) (phase : Phase) (parent : Option Node) (n : Node)
    (k : Kind) :
    (∃ f, n.kind = k ∧ v.callback? phase k = some f ∧
      v.recordDispatch phase parent n k = Recorder.invoke phase k f n (parentFor k parent)) ∨
    (n.kind = k → ¬ v.Meets phase n) ∧ v.recordDispatch phase parent n k = pure n := by
  unfold Visitor.recordDispatch
  by_cases hn : n.kind = k
  · rw [if_pos ((k.matchesNode_iff n).2 hn)]
    cases hf : v.callback? phase k with
    | some f => exact .inl ⟨f, hn, rfl, rfl⟩
    | none => exact .inr ⟨fun _ => by simp [Visitor.Meets, hn, hf], rfl⟩
  · rw [if_neg (mt (k.matchesNode_iff n).1 hn)]
    exact .inr ⟨fun h => absurd h hn, rfl⟩

/-- **The calls of a sweep are a chain** over the kinds that it tries. -/
theorem foldlM_recordDispatch_chain (v : Visitor σ ε) (phase : Phase) (parent : Option Node)
    {ks : List Kind} (hks : ks.Pairwise fun l k => phase.Later k l) (n : Node) (s : σ) :
    ∃ calls : List (Call ε),
      (ks.foldlM (v.recordDispatch phase parent) n s).marks = calls.map (.calls []) ∧
      Chain v phase parent ks n calls
        (ks.foldlM (v.recordDispatch phase parent) n s).result.toOption := by
  induction ks generalizing n s with
  | nil => exact ⟨[], rfl, .nil v phase parent n⟩
  | cons k ks ih =>
    obtain ⟨hk, hrest⟩ := List.pairwise_cons.1 hks
    rw [List.foldlM_cons]
    rcases recordDispatch_cases v phase parent n k with ⟨f, rfl, hf, hd⟩ | ⟨hn, hd⟩
    · rw [hd]
      have hmeets : v.Meets phase n := by simp [Visitor.Meets, hf]
      set c : Call ε := ⟨phase, n.kind, n, parentFor n.kind parent,
        (f n (parentFor n.kind parent) s).1⟩ with hc
      have hresult : (Recorder.invoke phase n.kind f n (parentFor n.kind parent) s).result =
        c.outcome.mapError .raised := rfl
      cases ho : c.outcome with
      | error e =>
        rw [ho] at hresult
        rw [Recorder.bind_of_error hresult]
        exact ⟨[c], rfl, .failed ⟨rfl, rfl⟩ rfl hmeets ho⟩
      | ok m =>
        rw [ho] at hresult
        rw [Recorder.bind_of_ok hresult]
        obtain ⟨calls, hmarks, hchain⟩ := ih hrest m _
        refine ⟨c :: calls, ?_, .cons hk ⟨rfl, rfl⟩ rfl hmeets ho hchain⟩
        rw [hmarks]
        rfl
    · have hpure : (pure n : Recorder σ ε Node) s = ⟨[], .ok n, s⟩ := rfl
      rw [hd, Recorder.bind_of_ok (congrArg Record.result hpure)]
      obtain ⟨calls, hmarks, hchain⟩ := ih hrest n s
      exact ⟨calls, hmarks, hchain.skip hk hn⟩

/-- The marks of one sweep at a position. -/
def sweepMarks (p : Position) (phase : Phase) (parent : Option Node) (n : Node)
    (calls : List (Call ε)) (last : Option Node) : List (Mark ε) :=
  .begins p phase parent n :: (calls.map (.calls p) ++ last.toList.map (.ends p phase))

theorem map_under_sweepMarks (i : Nat) (p : Position) (phase : Phase) (parent : Option Node)
    (n : Node) (calls : List (Call ε)) (last : Option Node) :
    (sweepMarks p phase parent n calls last).map (Mark.under i) =
      sweepMarks (i :: p) phase parent n calls last := by
  simp [sweepMarks, Mark.under, Function.comp_def]

theorem recordSweep_chain (v : Visitor σ ε) (phase : Phase) (parent : Option Node) (n : Node)
    (s : σ) : ∃ (calls : List (Call ε)) (last : Option Node),
      (v.recordSweep phase parent n s).marks = sweepMarks [] phase parent n calls last ∧
      Chain v phase parent phase.order n calls last := by
  obtain ⟨calls, hmarks, hchain⟩ :=
    foldlM_recordDispatch_chain v phase parent phase.order_later n s
  refine ⟨calls, _, ?_, hchain⟩
  rw [recordSweep_apply, sweepMarks]
  dsimp only
  rw [hmarks]

/-! ## The sweeps of a walk -/

/-- The marks on one side of a position. -/
def marksOn (p : Position) (a : Phase) (marks : List (Mark ε)) : List (Mark ε) :=
  marks.filter fun x => x.pos = p ∧ x.phase = a

theorem marksOn_append (p : Position) (a : Phase) (A B : List (Mark ε)) :
    marksOn p a (A ++ B) = marksOn p a A ++ marksOn p a B :=
  List.filter_append ..

theorem marksOn_eq_nil {p : Position} {a : Phase} {marks : List (Mark ε)}
    (h : ∀ x ∈ marks, x.pos = p → x.phase ≠ a) : marksOn p a marks = [] := by
  refine List.filter_eq_nil_iff.2 fun x hx => ?_
  simpa using h x hx

theorem marksOn_eq_self {p : Position} {a : Phase} {marks : List (Mark ε)}
    (h : ∀ x ∈ marks, x.pos = p ∧ x.phase = a) : marksOn p a marks = marks := by
  refine List.filter_eq_self.2 fun x hx => ?_
  simpa using h x hx

theorem marksOn_map_under (j : Nat) (p : Position) (a : Phase) (E : List (Mark ε)) :
    marksOn (j :: p) a (E.map (Mark.under j)) = (marksOn p a E).map (Mark.under j) := by
  unfold marksOn
  rw [List.filter_map]
  simp [Function.comp_def]

theorem marksOn_recordSweep (v : Visitor σ ε) (a phase : Phase) (parent : Option Node) (n : Node)
    (s : σ) : marksOn [] a (v.recordSweep phase parent n s).marks =
      if phase = a then (v.recordSweep phase parent n s).marks else [] := by
  by_cases ha : phase = a
  · rw [if_pos ha]
    exact marksOn_eq_self fun x hx => ⟨(mem_recordSweep hx).1, ha ▸ (mem_recordSweep hx).2⟩
  · rw [if_neg ha]
    exact marksOn_eq_nil fun x hx _ => (mem_recordSweep hx).2 ▸ ha

/-- The marks below a place are those of the visit to it. -/
theorem marksOn_gather {i j : Nat} (h : i ≤ j) (p : Position) (a : Phase)
    (Es : List (List (Mark ε))) :
    marksOn (j :: p) a (gather i Es) =
      (marksOn p a (Es[j - i]?.getD [])).map (Mark.under j) := by
  induction Es generalizing i with
  | nil => rfl
  | cons E Es ih =>
    rw [gather, marksOn_append]
    rcases Nat.eq_or_lt_of_le h with rfl | hij
    · have hrest : marksOn (i :: p) a (gather (i + 1) Es) = [] := by
        apply marksOn_eq_nil
        intro x hx hp
        obtain ⟨k, F, y, -, -, rfl⟩ := mem_gather.1 hx
        simp only [Mark.pos_under, List.cons.injEq] at hp
        omega
      rw [hrest, List.append_nil, marksOn_map_under, Nat.sub_self]
      rfl
    · have hfirst : marksOn (j :: p) a (E.map (Mark.under i)) = [] := by
        apply marksOn_eq_nil
        intro x hx hp
        obtain ⟨y, -, rfl⟩ := List.mem_map.1 hx
        simp only [Mark.pos_under, List.cons.injEq] at hp
        omega
      rw [hfirst, List.nil_append, ih hij]
      obtain ⟨k, rfl⟩ := Nat.exists_eq_add_of_lt hij
      have hk : i + k + 1 - i = k + 1 := by omega
      have hk' : i + k + 1 - (i + 1) = k := by omega
      rw [hk, hk', List.getElem?_cons_succ]

/-- What a walk does on one side of a position: it makes no sweep there, or one, of which the calls
are a chain. If that is the last sweep, it begins with a node of the kind with which the first one
ended. -/
def SweptOnce (v : Visitor σ ε) (marks : List (Mark ε)) (p : Position) (a : Phase) : Prop :=
  marksOn p a marks = [] ∨ ∃ parent n calls last,
    marksOn p a marks = sweepMarks p a parent n calls last ∧
    Chain v a parent a.order n calls last ∧
    (a = .leave → ∃ m, Entered marks p m ∧ n.kind = m.kind)

/-- At its root a walk makes its own two sweeps, of which the second one may be missing. -/
theorem recordWalk_sweeps_root (v : Visitor σ ε) (depth : Nat) (parent : Option Node) (n : Node)
    (s : σ) (a : Phase) : SweptOnce v (v.recordWalk depth parent n s).marks [] a := by
  cases depth with
  | zero => exact .inl rfl
  | succ depth =>
    obtain ⟨records, last, hmarks, -, hlast⟩ := recordWalk_parts v depth parent n s
    have hbelow : marksOn [] a (gather 0 (records.map (·.marks))) = [] :=
      marksOn_eq_nil fun x hx hp => absurd hp (pos_ne_nil_of_mem_gather hx)
    rw [SweptOnce, hmarks, marksOn_append, marksOn_append, hbelow, List.nil_append,
      marksOn_recordSweep]
    cases a with
    | enter =>
      have hnone : marksOn [] .enter last = [] := by
        rcases hlast with rfl | ⟨m, m', t, -, -, rfl⟩
        · rfl
        · rw [marksOn_recordSweep, if_neg nofun]
      obtain ⟨calls, final, hcalls, hchain⟩ := recordSweep_chain v .enter parent n s
      rw [if_pos rfl, hnone, List.append_nil]
      exact .inr ⟨parent, n, calls, final, hcalls, hchain, nofun⟩
    | leave =>
      rw [if_neg nofun, List.nil_append]
      rcases hlast with rfl | ⟨m, m', t, hm, hkind, rfl⟩
      · exact .inl rfl
      · obtain ⟨calls, final, hcalls, hchain⟩ := recordSweep_chain v .leave parent m' t
        rw [marksOn_recordSweep, if_pos rfl]
        refine .inr ⟨parent, m', calls, final, hcalls, hchain, fun _ => ⟨m, ?_, hkind⟩⟩
        rw [← hmarks]
        exact ends_nil_mem_recordWalk.2 hm

theorem recordWalk_sweeps (v : Visitor σ ε) (depth : Nat) (parent : Option Node) (n : Node) (s : σ)
    (p : Position) (a : Phase) : SweptOnce v (v.recordWalk depth parent n s).marks p a := by
  induction p generalizing depth parent n s with
  | nil => exact recordWalk_sweeps_root v depth parent n s a
  | cons j p ih =>
    cases depth with
    | zero => exact .inl rfl
    | succ depth =>
      obtain ⟨records, last, hmarks, hrecords, hlast⟩ := recordWalk_marks v depth parent n s
      have hroot : ∀ (phase : Phase) (x : Node) (t : σ),
          marksOn (j :: p) a (v.recordSweep phase parent x t).marks = [] := fun phase x t =>
        marksOn_eq_nil fun y hy hp => by simp [(mem_recordSweep hy).1] at hp
      have hnone : marksOn (j :: p) a last = [] := by
        rcases hlast with rfl | ⟨m, t, rfl⟩
        · rfl
        · exact hroot _ m t
      rw [SweptOnce, hmarks, marksOn_append, marksOn_append, hroot, hnone, List.nil_append,
        List.append_nil, marksOn_gather (Nat.zero_le j), Nat.sub_zero, List.getElem?_map]
      cases hr : records[j]? with
      | none => exact .inl rfl
      | some r =>
        -- The visit to the child at this place is a walk of its own.
        obtain ⟨parent', c, t, rfl⟩ : ∃ x c t, r = v.recordWalk depth x c t := by
          rcases hrecords with rfl | ⟨m, results, -, hv⟩
          · cases hr
          · obtain ⟨-, c, t, -, hc⟩ := hv.visit j r hr
            exact ⟨_, c, t, hc⟩
        rcases ih depth parent' c t with hempty | ⟨q, m, calls, final, hcalls, hchain, hleave⟩
        · exact .inl (congrArg (List.map (Mark.under j)) hempty)
        · refine .inr ⟨q, m, calls, final, ?_, hchain, fun ha => ?_⟩
          · rw [← map_under_sweepMarks, ← hcalls]
            rfl
          · obtain ⟨m', hm', hkind⟩ := hleave ha
            exact ⟨m', (entered_cons hlast).2 ⟨_, hr, hm'⟩, hkind⟩

/-! ## Sweeps that are made -/

/-- A walk with that result is cut off at a position or below: a call fails there, or the tree is
too deep. -/
def CutOff (marks : List (Mark ε)) (p : Position) (result : Except (Failure ε) Node) : Prop :=
  result = .error .tooDeep ∨ ∃ q c e, Mark.calls (p ++ q) c ∈ marks ∧ c.outcome = .error e ∧
    result = .error (.raised e)

theorem CutOff.ne_ok {marks : List (Mark ε)} {p : Position} {result : Except (Failure ε) Node}
    (h : CutOff marks p result) (r : Node) : result ≠ .ok r := by
  rintro rfl
  obtain h | ⟨q, c, e, -, -, h⟩ := h <;> cases h

/-- A walk that fails is cut off. -/
theorem recordWalk_cutOff (v : Visitor σ ε) (depth : Nat) (parent : Option Node) (n : Node) (s : σ)
    {e : Failure ε} (h : (v.recordWalk depth parent n s).result = .error e) :
    CutOff (v.recordWalk depth parent n s).marks [] (.error e) := by
  have haborts :=
    reads_aborts.walk (Reads.callbacks_self aborts_invoke v) rfl depth parent n s
  rw [h] at haborts
  cases e with
  | tooDeep => exact .inl rfl
  | invalid e => exact haborts.elim
  | raised e =>
    obtain ⟨before, c, hcalls, hc, -⟩ := haborts
    have hmem : c ∈ callsOf (v.recordWalk depth parent n s).marks := by simp [hcalls]
    obtain ⟨x, hx, hcall⟩ := List.mem_filterMap.1 hmem
    cases x with
    | begins | ends => cases hcall
    | calls q d =>
      obtain rfl := Option.some.inj hcall
      exact .inr ⟨q, d, e, hx, hc, rfl⟩

/-- Where a walk arrives, it makes the last sweep, unless it is cut off there or below. -/
theorem recordWalk_left_or_cutOff {v : Visitor σ ε} {depth : Nat} {parent : Option Node}
    {n c : Node} {s : σ} {p : Position} (h : Arrives (v.recordWalk depth parent n s).marks p c) :
    (∃ r, Mark.ends p .leave r ∈ (v.recordWalk depth parent n s).marks) ∨
      CutOff (v.recordWalk depth parent n s).marks p (v.recordWalk depth parent n s).result := by
  induction p generalizing depth parent n s with
  | nil =>
    cases hr : (v.recordWalk depth parent n s).result with
    | ok r => exact .inl ⟨r, ends_mem_of_ok hr⟩
    | error e => exact .inr (recordWalk_cutOff v depth parent n s hr)
  | cons j p ih =>
    obtain ⟨q, hq⟩ := h
    cases depth with
    | zero => cases hq
    | succ depth =>
      -- The walk below this place leaves the same marks, and if it fails, so does the whole walk.
      obtain ⟨x, d, t, hmarks, herror⟩ := exists_walk_below (y := .begins p .enter q c) hq
      have harrives : Arrives (v.recordWalk depth x d t).marks p c :=
        ⟨q, (hmarks (.begins p .enter q c)).1 hq⟩
      rcases ih harrives with ⟨r, hr⟩ | hdeep | ⟨q', b, e, hb, he, hr⟩
      · exact .inl ⟨r, (hmarks (.ends p .leave r)).2 hr⟩
      · exact .inr (.inl (herror _ hdeep))
      · exact .inr (.inr ⟨q', b, e, (hmarks (.calls (p ++ q') b)).2 hb, he, herror _ hr⟩)

theorem marksOn_ne_nil {p : Position} {a : Phase} {marks : List (Mark ε)} {x : Mark ε}
    (hx : x ∈ marks) (hpos : x.pos = p) (hphase : x.phase = a) : marksOn p a marks ≠ [] :=
  List.ne_nil_of_mem (List.mem_filter.2 ⟨hx, by simp [hpos, hphase]⟩)

/-- **The callbacks called at a position follow the kind of the node.** On each side of each
position of a walk, cut off or not, the calls are those of one sweep. Its kinds are later and later
in the order of the side, so that no callback is called twice; each call is given what the one
before it returned, and is for the kind of that. The last sweep starts from the kind at which the
first one ends. Where a walk arrives it makes the first sweep, and the last one too unless it is cut
off right there or below; a walk that succeeds makes both at every position. -/
theorem traverse_sweeps (v : Visitor σ ε) (depth : Nat) (n : Node) (s : σ) :
    v.MakesCalls depth n s (callsOf (v.record depth n s).marks) ∧
    (∀ p ∈ walked (v.record depth n s).marks,
      marksOn p .enter (v.record depth n s).marks ≠ [] ∧
      (marksOn p .leave (v.record depth n s).marks ≠ [] ∨
        CutOff (v.record depth n s).marks p (v.traverse depth n s).1) ∧
      ((∃ r, (v.traverse depth n s).1 = .ok r) →
        marksOn p .leave (v.record depth n s).marks ≠ [])) ∧
    ∀ p a, marksOn p a (v.record depth n s).marks = [] ∨ ∃ parent m calls last,
      marksOn p a (v.record depth n s).marks = sweepMarks p a parent m calls last ∧
      Chain v a parent a.order m calls last ∧
      (calls.Pairwise fun c d => a.Later d.kind c.kind) ∧
      (v.Meets a m → ∃ c, calls.head? = some c ∧ c.kind = m.kind) ∧
      (a = .leave → ∃ m', Entered (v.record depth n s).marks p m' ∧ m.kind = m'.kind) := by
  refine ⟨makesCalls_record v depth n s, ?_, ?_⟩
  · intro p hp
    obtain ⟨c, parent, hbegins⟩ := mem_walked.1 hp
    have hleft : marksOn p .leave (v.record depth n s).marks ≠ [] ∨
        CutOff (v.record depth n s).marks p (v.traverse depth n s).1 := by
      rw [traverse_eq_record]
      cases hv : v.validate with
      | error e =>
        rw [Visitor.record_of_invalid hv] at hbegins
        cases hbegins
      | ok u =>
        rw [Visitor.record_of_valid hv] at hbegins ⊢
        refine (recordWalk_left_or_cutOff ⟨parent, hbegins⟩).imp_left ?_
        rintro ⟨r, hr⟩
        exact marksOn_ne_nil hr rfl rfl
    refine ⟨marksOn_ne_nil hbegins rfl rfl, hleft, ?_⟩
    rintro ⟨r, hr⟩
    exact hleft.resolve_right fun hcut => hcut.ne_ok r hr
  · intro p a
    cases hv : v.validate with
    | error e =>
      rw [Visitor.record_of_invalid hv]
      exact .inl rfl
    | ok u =>
      rw [Visitor.record_of_valid hv]
      refine (recordWalk_sweeps v depth none n s p a).imp_right ?_
      rintro ⟨parent, m, calls, last, hmarks, hchain, hleave⟩
      exact ⟨parent, m, calls, last, hmarks, hchain, hchain.increasing,
        hchain.start (a.mem_order m.kind), hleave⟩

/-- An element that is turned into a text is left as a text, and no more as an element. -/
example :
    let keep : Callback Unit String := fun n _ => pure n
    let flatten : Visitor Unit String := { hooks := fun
      | .element => ⟨some fun _ _ => pure (.ofText "flat"), some keep⟩
      | _ => ⟨some keep, some keep⟩ }
    (callsOf (flatten.record 2 (.ofTag "p" [.ofText "a"]) ()).marks).map
        (fun c => (c.phase, c.kind)) =
      [(.enter, .element), (.enter, .text), (.leave, .text)] := rfl

end HtmlWalk
