import Mathlib.Control.Basic
import HtmlWalk.Walk

/-!
# One level of a walk

A run is opened by saying what it does from one state: it succeeds with a value and a new state, or
it fails. The loop over the children, which works on the node in place, is a recursion on the list
of the children (`Visitor.visitInPlace_eq`). A walk that may go one level deeper is a sweep, the
visits below, and a sweep (`Visitor.walk_succ`); proofs about walks are inductions on the depth over
this equation.
-/

namespace HtmlWalk

/-! ## Runs from one state -/

namespace Run

variable {σ ε α β : Type}

theorem pure_apply (a : α) (s : σ) : (pure a : Run σ ε α) s = (.ok a, s) := rfl

theorem throw_apply (e : ε) (s : σ) : (throw e : Run σ ε α) s = (.error e, s) := rfl

theorem bind_of_ok {x : Run σ ε α} {s t : σ} {a : α} (h : x s = (.ok a, t))
    (f : α → Run σ ε β) : (x >>= f) s = f a t := by
  simp only [bind, ExceptT.bind, ExceptT.mk, StateT.bind, h]
  rfl

theorem bind_of_error {x : Run σ ε α} {s t : σ} {e : ε} (h : x s = (.error e, t))
    (f : α → Run σ ε β) : (x >>= f) s = (.error e, t) := by
  simp only [bind, ExceptT.bind, ExceptT.mk, StateT.bind, h]
  rfl

end Run

/-! ## The loop over the children -/

/-- A loop that keeps what is done, once around. -/
theorem map_append_mapM_cons {m : Type → Type} [Monad m] [LawfulMonad m] {α β : Type} (f : α → m β)
    (done : List β) (c : α) (cs : List α) :
    (do let r ← f c; (done ++ [r] ++ ·) <$> cs.mapM f) = (done ++ ·) <$> (c :: cs).mapM f := by
  rw [List.mapM_cons, map_bind]
  apply bind_congr
  intro r
  rw [map_bind, map_eq_pure_bind]
  apply bind_congr
  intro rs
  rw [map_pure, List.append_assoc, List.singleton_append]

/-- The node with the child after those that are `done` exchanged. -/
theorem Node.exchange?_append {n : Node} {done rest : List Node} {c : Node}
    (h : (done ++ c :: rest).length = n.children.length) (other : Node) :
    (n.withChildren (done ++ c :: rest)).exchange? done.length other =
      some (c, n.withChildren (done ++ other :: rest)) := by
  have hplace : (done ++ c :: rest)[done.length]? = some c := by
    rw [List.getElem?_append_right (Nat.le_refl _), Nat.sub_self, List.getElem?_cons_zero]
  have hset : (done ++ c :: rest).set done.length other = done ++ other :: rest := by
    rw [List.set_append_right _ _ (Nat.le_refl _), Nat.sub_self, List.set_cons_zero]
  rw [exchange?, children_withChildren_of_length h, hplace, hset, Option.map_some,
    withChildren_withChildren]

namespace Visitor

variable {σ ε : Type}

/-- Visit children one after the other. Those `done` are in their places again; each child sees
the node with its own place held. -/
def visitChildren (visit : Node → Node → Run σ (Failure ε) Node) (n : Node) :
    List Node → List Node → Run σ (Failure ε) (List Node)
  | done, [] => pure done
  | done, c :: rest => do
    let c ← visit (n.withChildren (done ++ placeholder :: rest)) c
    visitChildren visit n (done ++ [c]) rest

/-- The node in the middle of the loop has the children that are done and those still to come. -/
theorem visitPlaces_eq (visit : Node → Node → Run σ (Failure ε) Node) (n : Node)
    (done rest : List Node) (h : (done ++ rest).length = n.children.length) :
    visitPlaces visit (List.range' done.length rest.length) (n.withChildren (done ++ rest)) =
      n.withChildren <$> visitChildren visit n done rest := by
  induction rest generalizing done with
  | nil =>
    rw [visitChildren, map_pure, List.append_nil, List.length_nil, List.range'_zero, visitPlaces]
  | cons c rest ih =>
    rw [List.length_cons, List.range'_succ, visitPlaces, Node.exchange?_append h, visitChildren,
      map_bind]
    apply bind_congr
    intro r
    have hheld : (done ++ placeholder :: rest).length = n.children.length := by simpa using h
    have hnext := ih (done ++ [r]) (by simpa using h)
    rw [List.length_append, List.length_singleton, List.append_assoc, List.singleton_append]
      at hnext
    simp only [Node.exchange?_append hheld]
    exact hnext

/-- **The loop over the children as a list.** -/
theorem visitInPlace_eq (visit : Node → Node → Run σ (Failure ε) Node) (n : Node) :
    visitInPlace visit n = n.withChildren <$> visitChildren visit n [] n.children := by
  have h := visitPlaces_eq visit n [] n.children rfl
  rwa [List.nil_append, List.length_nil, Node.withChildren_children, ← List.range_eq_range'] at h

/-! ## One level -/

/-- The part of a walk between the two sweeps, given how children are visited. -/
def below (v : Visitor σ ε) (visit : Node → Node → Run σ (Failure ε) Node) (n : Node) :
    Run σ (Failure ε) Node :=
  if v.descends then n.withChildren <$> visitChildren visit n [] n.children else pure n

theorem walk_succ (v : Visitor σ ε) (depth : Nat) (parent : Option Node) (n : Node) :
    v.walk (depth + 1) parent n = (do
      let n ← v.sweep .enter parent n
      let n ← v.below (fun parent c => v.walk depth (some parent) c) n
      v.sweep .leave parent n) := by
  rw [walk]
  apply bind_congr
  intro m
  unfold below
  rw [visitInPlace_eq]
  by_cases hd : v.descends = true
  · rw [if_pos hd, if_pos hd]
  · rw [if_neg hd, if_neg hd]

theorem traverse_of_valid {v : Visitor σ ε} (hv : v.validate = .ok ()) (depth : Nat) (n : Node) :
    v.traverse depth n = v.walk depth none n := by
  simp only [traverse, hv]

theorem traverse_of_invalid {v : Visitor σ ε} {e : InvalidEntry} (hv : v.validate = .error e)
    (depth : Nat) (n : Node) : v.traverse depth n = throw (.invalid e) := by
  simp only [traverse, hv]

theorem validate_of_ok {v : Visitor σ ε} {depth : Nat} {n r : Node} {s t : σ}
    (h : v.traverse depth n s = (.ok r, t)) : v.validate = .ok () := by
  cases hv : v.validate with
  | ok u => rfl
  | error e =>
    rw [traverse_of_invalid hv] at h
    cases h

end Visitor

end HtmlWalk
