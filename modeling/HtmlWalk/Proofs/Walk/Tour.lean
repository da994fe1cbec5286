import Mathlib.Data.List.Nodup
import HtmlWalk.Proofs.Walk.Attempt

/-!
# Tours

A tour goes through a tree like a walk, but it changes no more than the own data of each node, and
sees no more of the node than that: once before the children and once after them (`tour`).

If what is done with a node uses the state of its kind only, the visits of two kinds commute. So a
tour of some kinds followed by a tour of other kinds is one tour of them all (`tour_only_append`),
and tours of one kind after the other, in any order, are one tour of all kinds (`foldlM_tour`).
-/

namespace HtmlWalk

variable {σ β : Type}

/-- What is done on each side with the own data of the nodes. -/
abbrev Touches (σ : Type) := Phase → Own → Attempt σ Own

/-- Go through a tree of at most `depth` levels and change the own data of its nodes. -/
def tour (acts : Touches σ) : Nat → Node → Attempt σ Node
  | 0, _ => failure
  | depth + 1, n => do
    let o ← acts .enter n.own
    let cs ← n.children.mapM (tour acts depth)
    let o ← acts .leave o
    return o.node cs

/-! ## Touching some kinds only -/

namespace Touches

/-- Leave the nodes of all but some kinds alone. -/
def only (acts : Touches σ) (ks : List Kind) : Touches σ := fun phase o =>
  if o.kind ∈ ks then acts phase o else pure o

/-- Nodes keep their kind. -/
def KeepsKind (acts : Touches σ) : Prop :=
  ∀ phase o, (acts phase o).Yields fun o' => o'.kind = o.kind

/-- What is done with a node uses the state of its kind only. -/
def Separate {τ : Kind → Type} (acts : Touches (∀ k, τ k)) : Prop :=
  ∀ phase o, (acts phase o).Within o.kind

theorem only_of_mem (acts : Touches σ) {ks : List Kind} {o : Own} (h : o.kind ∈ ks)
    (phase : Phase) : acts.only ks phase o = acts phase o := if_pos h

theorem only_of_notMem (acts : Touches σ) {ks : List Kind} {o : Own} (h : o.kind ∉ ks)
    (phase : Phase) : acts.only ks phase o = pure o := if_neg h

theorem only_append_of_mem (acts : Touches σ) {ks : List Kind} {o : Own} (h : o.kind ∈ ks)
    (ls : List Kind) (phase : Phase) : acts.only (ks ++ ls) phase o = acts.only ks phase o := by
  rw [acts.only_of_mem h, acts.only_of_mem (List.mem_append_left ls h)]

theorem only_append_of_notMem (acts : Touches σ) {ks : List Kind} {o : Own} (h : o.kind ∉ ks)
    (ls : List Kind) (phase : Phase) : acts.only (ks ++ ls) phase o = acts.only ls phase o := by
  simp only [only, List.mem_append, h, false_or]

theorem KeepsKind.only {acts : Touches σ} (h : acts.KeepsKind) (ks : List Kind) :
    (acts.only ks).KeepsKind := by
  intro phase o
  by_cases ho : o.kind ∈ ks
  · rw [only_of_mem acts ho]
    exact h phase o
  · rw [only_of_notMem acts ho]
    exact .pure rfl

/-- What is done with nodes of different kinds commutes. -/
theorem Separate.commutes {τ : Kind → Type} {acts : Touches (∀ k, τ k)} (h : acts.Separate)
    {ks ls : List Kind} (hd : ks.Disjoint ls) (phase side : Phase) (o o' : Own) :
    (acts.only ks phase o).Commutes (acts.only ls side o') := by
  by_cases ho : o.kind ∈ ks
  · by_cases ho' : o'.kind ∈ ls
    · rw [only_of_mem acts ho, only_of_mem acts ho']
      have hne : o.kind ≠ o'.kind := fun heq => hd ho (heq ▸ ho')
      exact Attempt.Within.commutes hne (h phase o) (h side o')
    · rw [only_of_notMem acts ho']
      exact (Attempt.Commutes.pure_left o' _).symm
  · rw [only_of_notMem acts ho]
    exact .pure_left o _

end Touches

/-! ## Two tours as one -/

theorem Attempt.Commutes.tour_left {acts : Touches σ} {y : Attempt σ β}
    (h : ∀ phase o, (acts phase o).Commutes y) (depth : Nat) (n : Node) :
    (tour acts depth n).Commutes y := by
  induction depth generalizing n with
  | zero => exact .failure_left y
  | succ depth ih =>
    refine (h .enter n.own).bind_left ?_
    intro o
    refine (mapM_left fun c _ => ih c).bind_left ?_
    intro cs
    exact (h .leave o).bind_left fun o => .pure_left _ y

section TwoTours

variable {acts : Touches σ} {depth : Nat} {n : Node}

theorem tour_succ (acts : Touches σ) (depth : Nat) (n : Node) :
    tour acts (depth + 1) n = (do
      let o ← acts .enter n.own
      let cs ← n.children.mapM (tour acts depth)
      let o ← acts .leave o
      return o.node cs) := rfl

theorem yields_mapM_children (visit : Node → Attempt σ Node) (n : Node) :
    (n.children.mapM visit).Yields fun cs => n.kind.hasChildren = true ∨ cs = [] := by
  rcases n.hasChildren_or_children_eq_nil with h | h
  · exact fun _ _ _ _ => .inl h
  · rw [h]
    exact .pure (.inr rfl)

theorem tour_node {o : Own} {cs : List Node} (h : o.kind.hasChildren = true ∨ cs = []) :
    tour acts (depth + 1) (o.node cs) = (do
      let o ← acts .enter o
      let cs ← cs.mapM (tour acts depth)
      let o ← acts .leave o
      return o.node cs) := by
  rw [tour_succ, Own.own_node, Own.children_node h]

/-- A tour that leaves a node alone goes on to the children. -/
theorem tour_of_notMem {ks : List Kind} (hn : n.kind ∉ ks) :
    tour (acts.only ks) (depth + 1) n = (do
      let cs ← n.children.mapM (tour (acts.only ks) depth)
      return n.withChildren cs) := by
  rw [tour_succ, acts.only_of_notMem hn, pure_bind]
  apply bind_congr
  intro cs
  rw [acts.only_of_notMem hn, pure_bind]
  rfl

theorem tour_node_of_notMem {ks : List Kind} {o : Own} {cs : List Node} (ho : o.kind ∉ ks)
    (h : o.kind.hasChildren = true ∨ cs = []) :
    tour (acts.only ks) (depth + 1) (o.node cs) = (do
      let ds ← cs.mapM (tour (acts.only ks) depth)
      return o.node ds) := by
  have hn : (o.node cs).kind ∉ ks := by rwa [Node.kind, Own.own_node]
  rw [tour_of_notMem hn, Own.children_node h]
  simp only [Node.withChildren, Own.own_node]

/-- One level of a tour depends only on what is done with nodes of the kind at hand. -/
theorem level_congr {bcts : Touches σ} (hkind : acts.KeepsKind) {k : Kind}
    (h : ∀ phase o, o.kind = k → acts phase o = bcts phase o) {o : Own} (ho : o.kind = k)
    (below : Attempt σ (List Node)) :
    (do let o ← acts .enter o; let cs ← below; let o ← acts .leave o; return o.node cs) =
      (do let o ← bcts .enter o; let cs ← below; let o ← bcts .leave o; return o.node cs) := by
  rw [← h .enter o ho]
  refine (hkind .enter o).bind_congr fun o' ho' => bind_congr fun cs => ?_
  rw [h .leave o' (ho'.trans ho)]

end TwoTours

section Separate

variable {τ : Kind → Type} {acts : Touches (∀ k, τ k)} {ks ls : List Kind} {depth : Nat} {n : Node}

/-- A second tour of some nodes can as well be made right after the first one of each. -/
theorem mapM_tour_mapM_tour (hsep : acts.Separate) (hd : ks.Disjoint ls) (depth : Nat)
    (ns : List Node) :
    (do let cs ← ns.mapM (tour (acts.only ks) depth); cs.mapM (tour (acts.only ls) depth)) =
      ns.mapM fun n => tour (acts.only ks) depth n >>= tour (acts.only ls) depth := by
  refine Attempt.mapM_bind_mapM ?_ ns
  exact fun m m' => .tour_left (fun phase o => (Attempt.Commutes.tour_left
    (fun side o' => (hsep.commutes hd phase side o o').symm) depth m').symm) depth m

/-- The second tour leaves a node of the first one alone, for the node keeps its kind. -/
theorem tour_bind_tour_of_mem (hkind : acts.KeepsKind) (hsep : acts.Separate)
    (hd : ks.Disjoint ls) (hn : n.kind ∈ ks) :
    (tour (acts.only ks) (depth + 1) n >>= tour (acts.only ls) (depth + 1)) = (do
      let o ← acts.only ks .enter n.own
      let ds ← (do
        let cs ← n.children.mapM (tour (acts.only ks) depth)
        cs.mapM (tour (acts.only ls) depth))
      let o ← acts.only ks .leave o
      return o.node ds) :=
  calc tour (acts.only ks) (depth + 1) n >>= tour (acts.only ls) (depth + 1)
    _ = (do
        let o ← acts.only ks .enter n.own
        let cs ← n.children.mapM (tour (acts.only ks) depth)
        let o ← acts.only ks .leave o
        tour (acts.only ls) (depth + 1) (o.node cs)) := by
      rw [tour_succ]
      simp only [bind_assoc, pure_bind]
    _ = (do
        let o ← acts.only ks .enter n.own
        let cs ← n.children.mapM (tour (acts.only ks) depth)
        let o ← acts.only ks .leave o
        let ds ← cs.mapM (tour (acts.only ls) depth)
        return o.node ds) := by
      refine (hkind.only ks .enter n.own).bind_congr ?_
      intro o ho
      refine (yields_mapM_children _ n).bind_congr ?_
      intro cs hcs
      refine (hkind.only ks .leave o).bind_congr ?_
      intro o' ho'
      have hk : o'.kind = n.kind := ho'.trans ho
      exact tour_node_of_notMem (hk ▸ hd hn) (hk ▸ hcs)
    _ = _ := by
      simp only [bind_assoc]
      refine bind_congr fun o => bind_congr fun cs => ?_
      have hlater := Attempt.Commutes.mapM_left fun m (_ : m ∈ cs) =>
        Attempt.Commutes.tour_left
          (fun phase o' => (hsep.commutes hd .leave phase o o').symm) depth m
      exact hlater.symm _ fun o ds => pure (o.node ds)

/-- The first tour leaves a node alone, so the second one is the first to touch it. -/
theorem tour_bind_tour_of_notMem (hsep : acts.Separate) (hd : ks.Disjoint ls) (hn : n.kind ∉ ks) :
    (tour (acts.only ks) (depth + 1) n >>= tour (acts.only ls) (depth + 1)) = (do
      let o ← acts.only ls .enter n.own
      let ds ← (do
        let cs ← n.children.mapM (tour (acts.only ks) depth)
        cs.mapM (tour (acts.only ls) depth))
      let o ← acts.only ls .leave o
      return o.node ds) :=
  calc tour (acts.only ks) (depth + 1) n >>= tour (acts.only ls) (depth + 1)
    _ = (do
        let cs ← n.children.mapM (tour (acts.only ks) depth)
        tour (acts.only ls) (depth + 1) (n.withChildren cs)) := by
      rw [tour_of_notMem hn]
      simp only [bind_assoc, pure_bind]
    _ = (do
        let cs ← n.children.mapM (tour (acts.only ks) depth)
        let o ← acts.only ls .enter n.own
        let ds ← cs.mapM (tour (acts.only ls) depth)
        let o ← acts.only ls .leave o
        return o.node ds) := (yields_mapM_children _ n).bind_congr fun cs hcs => tour_node hcs
    _ = _ := by
      have hearlier := Attempt.Commutes.mapM_left fun m (_ : m ∈ n.children) =>
        Attempt.Commutes.tour_left (fun phase o => hsep.commutes hd phase .enter o n.own) depth m
      rw [hearlier]
      simp only [bind_assoc]

/-- **Two tours as one.** A tour of some kinds and then one of other kinds are one tour of all
these kinds. -/
theorem tour_only_append (hkind : acts.KeepsKind) (hsep : acts.Separate) (hd : ks.Disjoint ls)
    (depth : Nat) (n : Node) :
    (tour (acts.only ks) depth n >>= tour (acts.only ls) depth) =
      tour (acts.only (ks ++ ls)) depth n := by
  induction depth generalizing n with
  | zero => rfl
  | succ depth ih =>
    by_cases hn : n.kind ∈ ks
    · rw [tour_bind_tour_of_mem hkind hsep hd hn, mapM_tour_mapM_tour hsep hd, funext ih, tour_succ]
      refine level_congr (hkind.only ks) (fun phase o ho => ?_) rfl _
      exact (acts.only_append_of_mem (ho ▸ hn) ls phase).symm
    · rw [tour_bind_tour_of_notMem hsep hd hn, mapM_tour_mapM_tour hsep hd, funext ih, tour_succ]
      refine level_congr (hkind.only ls) (fun phase o ho => ?_) rfl _
      exact (acts.only_append_of_notMem (ho ▸ hn) ls phase).symm

/-- Tours of one kind after the other are one tour of these kinds. -/
theorem foldlM_tour (hkind : acts.KeepsKind) (hsep : acts.Separate) (h : (ks ++ ls).Nodup)
    (depth : Nat) (n : Node) :
    (tour (acts.only ks) depth n >>= fun m =>
      ls.foldlM (fun m k => tour (acts.only [k]) depth m) m) =
        tour (acts.only (ks ++ ls)) depth n := by
  induction ls generalizing ks with
  | nil => rw [List.append_nil]; exact bind_pure _
  | cons l ls ih =>
    rw [List.append_cons] at h
    have hd : ks.Disjoint [l] := List.disjoint_of_nodup_append (List.Nodup.of_append_left h)
    simp only [List.foldlM_cons]
    rw [← bind_assoc, tour_only_append hkind hsep hd, ih h, ← List.append_cons]

end Separate

end HtmlWalk
