import Mathlib.Data.List.Infix
import HtmlWalk.Proofs.Walk.Rules

/-!
# What a walk leaves alone

A visitor *handles* a kind if it has a callback for it. Nodes of the other kinds pass through both
sweeps as they are, but their children are taken out one by one, walked and put back.

**Theorem (`traverse_framed`).** A walk that succeeds relates its tree to its result by `Framed`: a
node of a kind that is not handled keeps its data and the number of its children, and the children
are related in turn. If the walk does not go below the root, and the root is not handled, the result
is the tree itself.

Read by places (`Framed.face_at?`): on the way down to a place, nothing is altered, dropped, added
or moved before the first node that is handled. For the visits of one kind that is the first node of
this kind.
-/

namespace HtmlWalk

variable {σ ε : Type}

/-! ## Framed trees -/

/-- The second tree is what a walk can make of the first if it handles the kinds in `S`: anything if
the root is handled, and otherwise a node with the same data and as many children, of which each is
what a walk can make of its counterpart. -/
inductive Framed (S : Kind → Prop) : Node → Node → Prop
  | handled {a b : Node} : S a.kind → Framed S a b
  | kept {a b : Node} : b.own = a.own → b.children.length = a.children.length →
      (∀ (i : Nat) (c d : Node), a.children[i]? = some c → b.children[i]? = some d →
        Framed S c d) → Framed S a b

/-- What a node shows without its children: its data, and how many children there are. -/
def Node.face (n : Node) : Own × Nat := (n.own, n.children.length)

namespace Framed

variable {S : Kind → Prop} {a b n : Node}

theorem withChildren {cs : List Node} (h : List.Forall₂ (Framed S) n.children cs) :
    Framed S n (n.withChildren cs) := by
  have hcs := Node.children_withChildren_of_length h.length_eq.symm
  refine .kept (n.own_withChildren cs) (by rw [hcs, h.length_eq]) fun i c d hc hd => ?_
  rw [hcs] at hd
  obtain ⟨hi, rfl⟩ := List.getElem?_eq_some_iff.1 hc
  obtain ⟨hj, rfl⟩ := List.getElem?_eq_some_iff.1 hd
  exact h.get hi hj

theorem of_not_handled (h : Framed S a b) (ha : ¬ S a.kind) :
    b.face = a.face ∧ ∀ (i : Nat) (c d : Node), a.children[i]? = some c →
      b.children[i]? = some d → Framed S c d := by
  cases h with
  | handled hs => exact absurd hs ha
  | kept hown hlen hrest => exact ⟨Prod.ext hown hlen, hrest⟩

mutual

protected theorem refl : ∀ n : Node, Framed S n n
  | .document mode cs => withChildren (n := .document mode cs) (refl_all cs)
  | .fragment cs => withChildren (n := .fragment cs) (refl_all cs)
  | .element e cs => withChildren (n := .element e cs) (refl_all cs)
  | .doctype d => withChildren (n := .doctype d) .nil
  | .comment c => withChildren (n := .comment c) .nil
  | .text t => withChildren (n := .text t) .nil

theorem refl_all : ∀ ns : List Node, List.Forall₂ (Framed S) ns ns
  | [] => .nil
  | n :: ns => .cons (Framed.refl n) (refl_all ns)

end

/-- **Nothing changes before the first handled node.** If no node on the way down to a place, the
place included, is handled, both trees show the same there: the same node, or none. -/
theorem face_at? (h : Framed S a b) (p : Position)
    (hp : ∀ q x, q <+: p → a.at? q = some x → ¬ S x.kind) :
    (b.at? p).map Node.face = (a.at? p).map Node.face := by
  induction p generalizing a b with
  | nil => exact congrArg some (h.of_not_handled (hp [] a (List.prefix_refl []) rfl)).1
  | cons i p ih =>
    obtain ⟨hface, hrest⟩ := h.of_not_handled (hp [] a List.nil_prefix rfl)
    refine Node.map_at?_cons (congrArg Prod.snd hface) fun c d hc hd => ?_
    refine ih (hrest i c d hc hd) fun q x hq hx => hp (i :: q) x ?_ ?_
    · exact List.cons_prefix_cons.2 ⟨rfl, hq⟩
    · rw [Node.at?, hc]
      exact hx

end Framed

/-! ## Walks frame -/

namespace Visitor

variable {v : Visitor σ ε} {n : Node}

/-- The visitor has a callback for a kind. -/
def Handles (v : Visitor σ ε) (k : Kind) : Prop := (v.hooks k).isEmpty = false

theorem callback?_of_not_handles {k : Kind} (h : ¬ v.Handles k) (phase : Phase) :
    v.callback? phase k = none := by
  have hempty : (v.hooks k).enter = none ∧ (v.hooks k).leave = none := by
    simpa [Handles, Hooks.isEmpty] using h
  cases phase
  · exact hempty.1
  · exact hempty.2

/-- A node that is not handled passes through a sweep as it is. -/
theorem recordSweep_of_not_handles (h : ¬ v.Handles n.kind) (phase : Phase)
    (parent : Option Node) :
    (v.recordSweep phase parent n).Ensures (fun _ => True) (· = n) fun _ => True := by
  refine recordSweep_ensures ?_ (fun _ _ _ => trivial) parent rfl
  rintro k f hf m parent s rfl rfl
  rw [callback?_of_not_handles h phase] at hf
  cases hf

/-- **Walks frame.** A walk makes of a tree what `Framed` allows. -/
theorem recordWalk_framed (v : Visitor σ ε) (depth : Nat) (parent : Option Node) (n : Node) :
    (v.recordWalk depth parent n).Ensures (fun _ => True)
      (fun r => Framed v.Handles n r ∧ (v.descends = false → ¬ v.Handles n.kind → r = n))
      fun _ => True := by
  induction depth generalizing parent n with
  | zero => exact .fail trivial
  | succ depth ih =>
    by_cases hn : v.Handles n.kind
    · exact .of_forall (fun _ => trivial) (fun r => ⟨.handled hn, fun _ h => absurd hn h⟩)
        fun _ => trivial
    refine recordWalk_ensures (R := Framed v.Handles) (recordSweep_of_not_handles hn .enter parent)
      (fun _ _ (_ : True) => trivial) ?_ ?_
    · exact fun m _ p c _ => (ih (some p) c).mono (fun _ h => h) (fun _ h => h.1) fun _ h => h
    · rintro m m' rfl hm'
      -- The node is of the same kind after its children are walked.
      have hframed : Framed v.Handles m m' ∧ m'.kind = m.kind ∧ (v.descends = false → m' = m) := by
        rcases hm'.cases with ⟨hd, cs, hcs, rfl⟩ | ⟨-, rfl⟩
        · exact ⟨.withChildren hcs, m.kind_withChildren cs, fun h => absurd (h.symm.trans hd) nofun⟩
        · exact ⟨.refl m', rfl, fun _ => rfl⟩
      obtain ⟨hframed, hkind, hsame⟩ := hframed
      refine (recordSweep_of_not_handles (hkind ▸ hn) .leave parent).mono (fun _ h => h) ?_
        fun _ h => h
      rintro r rfl
      exact ⟨hframed, fun hd _ => hsame hd⟩

end Visitor

/-- The visitor for one kind handles no other. -/
theorem KindVisitor.handles_toVisitor {v : KindVisitor σ ε} {k l : Kind}
    (h : (v.toVisitor k).Handles l) : l = k := by
  by_contra hl
  simp [Visitor.Handles, toVisitor, Visitor.visitChildNodes, Visitor.setHooks, hl, Visitor.empty,
    Hooks.isEmpty] at h

/-- **What a walk leaves alone.** A walk that succeeds alters nodes of handled kinds and what is
below them, and nothing else. A visit of one kind leaves alone all that is before the first node of
the kind on the way down. -/
theorem traverse_framed :
    (∀ (v : Visitor σ ε) (depth : Nat) (n r : Node) (s t : σ),
      v.traverse depth n s = (.ok r, t) →
        Framed v.Handles n r ∧ (v.descends = false → ¬ v.Handles n.kind → r = n)) ∧
    ∀ (k : Kind) (v : KindVisitor σ ε) (depth : Nat) (n r : Node) (s t : σ),
      visitKind k depth n v s = (.ok r, t) → ∀ p : Position,
        (∀ q x, q <+: p → n.at? q = some x → x.kind ≠ k) →
          (r.at? p).map Node.face = (n.at? p).map Node.face := by
  have hframed : ∀ (v : Visitor σ ε) (depth : Nat) (n r : Node) (s t : σ),
      v.traverse depth n s = (.ok r, t) →
        Framed v.Handles n r ∧ (v.descends = false → ¬ v.Handles n.kind → r = n) := by
    intro v depth n r s t h
    have hrec := Visitor.record_ensures (v.recordWalk_framed depth none n) fun _ => trivial
    exact (hrec s).value r (Visitor.result_of_traverse h)
  refine ⟨hframed, fun k v depth n r s t h p hp => ?_⟩
  refine (hframed _ depth n r s t h).1.face_at? p fun q x hq hx hk => ?_
  exact hp q x hq hx (KindVisitor.handles_toVisitor hk)

/-- The visit of comments that puts an element with a text in place of each. -/
def unfoldComments : KindVisitor Nat String where
  hooks := { enter := some fun n _ count =>
    (.ok (.ofTag "ins" [.ofText (n.comment?.getD "")]), count + 1) }
  descends := true

/-- A comment becomes an element of which the visit finds no comment, and the text beside it, below
an element of its own, stays where it is. -/
theorem traverse_framed_unfoldComments :
    visitKind .comment 3 (.ofTag "p" [.ofTag "q" [.ofText "a"], .ofComment "b"]) unfoldComments 0 =
      (.ok (.ofTag "p" [.ofTag "q" [.ofText "a"], .ofTag "ins" [.ofText "b"]]), 1) ∧
    Framed (unfoldComments.toVisitor .comment).Handles
      (.ofTag "p" [.ofTag "q" [.ofText "a"], .ofComment "b"])
      (.ofTag "p" [.ofTag "q" [.ofText "a"], .ofTag "ins" [.ofText "b"]]) ∧
    ((Node.ofTag "p" [.ofTag "q" [.ofText "a"], .ofTag "ins" [.ofText "b"]]).at? [0, 0]).map
      Node.face = some (.text ⟨"a", none⟩, 0) := by
  have h : visitKind .comment 3 (.ofTag "p" [.ofTag "q" [.ofText "a"], .ofComment "b"])
      unfoldComments 0 =
        (.ok (.ofTag "p" [.ofTag "q" [.ofText "a"], .ofTag "ins" [.ofText "b"]]), 1) := rfl
  refine ⟨h, (traverse_framed.1 _ 3 _ _ 0 1 h).1, ?_⟩
  refine traverse_framed.2 .comment _ 3 _ _ 0 1 h [0, 0] fun q x hq hx => ?_
  have hq : q = [] ∨ q = [0] ∨ q = [0, 0] := by
    simpa [List.inits] using (List.mem_inits q [0, 0]).2 hq
  rcases hq with rfl | rfl | rfl <;> cases hx <;> decide

end HtmlWalk
