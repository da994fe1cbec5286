import HtmlWalk.Proofs.Walk.Rules

/-!
# What a walk adds to a tree

While a child is walked, an empty text holds its place in the parent, and in the same way in each
node further up. So at almost any time the tree is not one that the callbacks have built.

**Theorem (`traverse_all`).** Let `P` be a property of what nodes hold besides their children. If
all nodes of the tree have it, and callbacks return only trees of such nodes when they are given
one, then callbacks are given only such trees, and so is the caller in the end. This is also so if
the text that holds places does not have the property: it never comes out.

A node is put together again from its own data and the results of all its visits before the last
sweep, so that the invariant of a walk is about the tree that the walk is given and the one that it
returns, and not about the parent in between.
-/

namespace HtmlWalk

variable {σ ε : Type}

namespace Node

variable {P : Own → Prop} {n : Node}

/-- All nodes of a tree hold data with a property. -/
def All (P : Own → Prop) (n : Node) : Prop := ∀ m ∈ n.preorder, P m.own

theorem all_iff : n.All P ↔ P n.own ∧ ∀ c ∈ n.children, c.All P := by
  simp only [All, n.preorder_eq, List.forall_mem_cons, mem_preorderAll, forall_exists_index,
    and_imp]
  exact and_congr_right' ⟨fun h c hc m hm => h m c hc hm, fun h m c hc hm => h c hc m hm⟩

theorem All.withChildren (h : n.All P) {cs : List Node} (hcs : ∀ c ∈ cs, c.All P) :
    (n.withChildren cs).All P := by
  rw [all_iff, own_withChildren, children_withChildren]
  refine ⟨(all_iff.1 h).1, ?_⟩
  split
  · exact hcs
  · exact nofun

end Node

namespace Visitor

/-- The callbacks return trees of nodes with a property when they are given such trees. -/
def KeepsAll (v : Visitor σ ε) (P : Own → Prop) : Prop :=
  ∀ phase k f, v.callback? phase k = some f → ∀ n parent s r t, n.kind = k → n.All P →
    f n parent s = (.ok r, t) → r.All P

variable {v : Visitor σ ε} {P : Own → Prop}

theorem recordSweep_all (hv : v.KeepsAll P) (phase : Phase) (parent : Option Node) {n : Node}
    (hn : n.All P) : (v.recordSweep phase parent n).Ensures
      (fun x => ∀ c, x.call? = some c → c.node.All P) (·.All P) fun _ => True :=
  recordSweep_ensures (fun k f hf n parent s hk hn =>
    ⟨fun r t hr => hv phase k f hf n parent s r t hk hn hr, fun _ _ _ => trivial⟩)
    (fun _ _ h => h) parent hn

/-- **Walks keep the property.** A walk of a tree of nodes with the property gives callbacks only
such trees, and returns one. -/
theorem recordWalk_all (hv : v.KeepsAll P) (depth : Nat) (parent : Option Node) {n : Node}
    (hn : n.All P) : (v.recordWalk depth parent n).Ensures
      (fun x => ∀ c, x.call? = some c → c.node.All P) (·.All P) fun _ => True := by
  induction depth generalizing parent n with
  | zero => exact .fail trivial
  | succ depth ih =>
    refine recordWalk_ensures (recordSweep_all hv .enter parent hn)
      (fun i (x : Mark ε) (hx : ∀ c, x.call? = some c → c.node.All P) => by simpa using hx)
      (fun m hm p c hc => ih (some p) ((Node.all_iff.1 hm).2 c hc)) ?_
    intro m m' hm hm'
    refine recordSweep_all hv .leave parent ?_
    rcases hm'.of_right with rfl | ⟨cs, hcs, rfl⟩
    · exact hm
    · exact hm.withChildren hcs

end Visitor

/-- **A walk adds nothing of its own.** If all nodes of the tree hold data with a property, and the
callbacks keep it so, then every callback is given a tree of such nodes, and a walk that succeeds
returns one. -/
theorem traverse_all {v : Visitor σ ε} {P : Own → Prop} (hv : v.KeepsAll P) {n : Node}
    (hn : n.All P) (depth : Nat) (s : σ) :
    ∃ calls, v.MakesCalls depth n s calls ∧ (∀ c ∈ calls, c.node.All P) ∧
      ∀ r t, v.traverse depth n s = (.ok r, t) → r.All P := by
  have hrec := Visitor.record_ensures (Visitor.recordWalk_all hv depth none hn) fun _ => trivial
  refine ⟨callsOf (v.record depth n s).marks, makesCalls_record v depth n s, ?_, ?_⟩
  · intro c hc
    obtain ⟨x, hx, hcall⟩ := List.mem_filterMap.1 hc
    exact (hrec s).marks x hx c hcall
  · intro r t h
    exact (hrec s).value r (Visitor.result_of_traverse h)

/-- Data other than that of the text that holds the place of a child. -/
def NotPlaceholder (o : Own) : Prop := o ≠ placeholder.own

/-- The visitor that closes elements with a comment, wraps texts, and counts what it does. -/
def closeAndWrap : Visitor Nat String where
  hooks
    | .element => { enter := some fun n _ count =>
        (.ok (n.mapChildren (· ++ [.ofComment "end"])), count + 1) }
    | .text => { leave := some fun n _ count => (.ok (.ofTag "b" [n]), count + 1) }
    | _ => {}

theorem keepsAll_closeAndWrap : closeAndWrap.KeepsAll NotPlaceholder := by
  intro phase k f hf n parent s r t hk hn hr
  have hend : (Node.ofComment "end").All NotPlaceholder := by
    unfold Node.All NotPlaceholder
    decide
  cases phase <;> cases k <;> cases hf <;> cases hr
  · exact hn.withChildren (List.forall_mem_append.2
      ⟨(Node.all_iff.1 hn).2, List.forall_mem_singleton.2 hend⟩)
  · exact Node.all_iff.2 ⟨nofun, List.forall_mem_singleton.2 hn⟩

/-- The text that holds places is none of the nodes that the property allows, and it is not in the
result. -/
theorem traverse_all_closeAndWrap :
    ¬ placeholder.All NotPlaceholder ∧ closeAndWrap.KeepsAll NotPlaceholder ∧
    (Node.ofTag "p" [.ofTag "q" [.ofText "a"], .ofText "b"]).All NotPlaceholder ∧
    closeAndWrap.traverse 3 (.ofTag "p" [.ofTag "q" [.ofText "a"], .ofText "b"]) 0 =
      (.ok (.ofTag "p" [.ofTag "q" [.ofTag "b" [.ofText "a"], .ofComment "end"],
        .ofTag "b" [.ofText "b"], .ofComment "end"]), 4) ∧
    (Node.ofTag "p" [.ofTag "q" [.ofTag "b" [.ofText "a"], .ofComment "end"],
      .ofTag "b" [.ofText "b"], .ofComment "end"]).All NotPlaceholder := by
  have hplace : ¬ placeholder.All NotPlaceholder := fun h => (Node.all_iff.1 h).1 rfl
  have htree : (Node.ofTag "p" [.ofTag "q" [.ofText "a"], .ofText "b"]).All NotPlaceholder := by
    unfold Node.All NotPlaceholder
    decide
  obtain ⟨calls, -, -, hall⟩ := traverse_all keepsAll_closeAndWrap htree 3 0
  exact ⟨hplace, keepsAll_closeAndWrap, htree, rfl, hall _ 4 rfl⟩

end HtmlWalk
