import Mathlib.Tactic.Set
import HtmlWalk.Proofs.Walk.Basic

/-!
# The loop over the children

The loop over the children of a node works on the node itself. Each turn takes a child out of its
place, visits it, and puts what comes of it into the same place, and twice it asks whether there is
such a place: without a child to take the loop would end early, and without a place to put it what
comes of a visit would be lost.

**Theorem (`walkChildren_exact`).** Neither happens, whatever the callbacks do. The run of the loop
is one in which each turn finds its place both times (`Turns`). If it succeeds, there was one visit
to each child that the node had at the beginning, in order, and the node has the results of these
visits for children and is otherwise the same.

The proof follows the node through the turns. Before a turn it has the results of the earlier
visits and then the children still to come, as many as at the beginning (`exists_turns`).
-/

namespace HtmlWalk

variable {σ ε : Type}

/-! ## Visits -/

/-- A visit to a child. -/
structure Visit (σ ε : Type) where
  /-- The node that has the child, as it is during the visit. -/
  parent : Node
  /-- The child that is visited. -/
  child : Node
  /-- The state at the beginning. -/
  before : σ
  /-- What comes of the child. -/
  outcome : Except (Failure ε) Node
  /-- The state at the end. -/
  after : σ

/-- The visits that also write themselves into the state. -/
def logVisits (visit : Node → Node → Run σ (Failure ε) Node) (parent c : Node) :
    Run (σ × List (Visit σ ε)) (Failure ε) Node := fun s =>
  match visit parent c s.1 with
  | (outcome, t) => (outcome, (t, s.2 ++ [⟨parent, c, s.1, outcome, t⟩]))

theorem logVisits_apply {visit : Node → Node → Run σ (Failure ε) Node} {parent c : Node} {s t : σ}
    {outcome : Except (Failure ε) Node} (h : visit parent c s = (outcome, t))
    (log : List (Visit σ ε)) :
    logVisits visit parent c (s, log) = (outcome, (t, log ++ [⟨parent, c, s, outcome, t⟩])) := by
  simp only [logVisits, h]

/-! ## Turns -/

/-- Runs of the loop in which no place is missing: a turn finds a child in its place, and finds the
place again if the visit succeeds. -/
inductive Turns (visit : Node → Node → Run σ (Failure ε) Node) :
    List Nat → Node → σ → List (Visit σ ε) → Except (Failure ε) Node × σ → Prop
  | done (n : Node) (s : σ) : Turns visit [] n s [] (.ok n, s)
  | fails {i : Nat} {places : List Nat} {n held c : Node} {s t : σ} {e : Failure ε} :
    n.exchange? i placeholder = some (c, held) → visit held c s = (.error e, t) →
      Turns visit (i :: places) n s [⟨held, c, s, .error e, t⟩] (.error e, t)
  | turn {i : Nat} {places : List Nat} {n held c r old m : Node} {s t : σ}
      {visits : List (Visit σ ε)} {last : Except (Failure ε) Node × σ} :
    n.exchange? i placeholder = some (c, held) → visit held c s = (.ok r, t) →
      held.exchange? i r = some (old, m) → Turns visit places m t visits last →
      Turns visit (i :: places) n s (⟨held, c, s, .ok r, t⟩ :: visits) last

namespace Turns

variable {visit : Node → Node → Run σ (Failure ε) Node} {places : List Nat} {n : Node} {s : σ}
  {visits : List (Visit σ ε)} {last : Except (Failure ε) Node × σ}

/-- Such a run is the run of the loop. -/
theorem visitPlaces_apply (h : Turns visit places n s visits last) :
    Visitor.visitPlaces visit places n s = last := by
  induction h with
  | done n s => rfl
  | fails hchild hvisit =>
    rw [Visitor.visitPlaces, hchild]
    exact Run.bind_of_error hvisit _
  | turn hchild hvisit hplace _ ih =>
    rw [Visitor.visitPlaces, hchild]
    refine (Run.bind_of_ok hvisit _).trans ?_
    rw [hplace]
    exact ih

/-- Visits that also write themselves into the state make a run of the same turns. -/
theorem logged (h : Turns visit places n s visits last) (log : List (Visit σ ε)) :
    Visitor.visitPlaces (logVisits visit) places n (s, log) =
      (last.1, (last.2, log ++ visits)) := by
  induction h generalizing log with
  | done n s =>
    rw [List.append_nil]
    rfl
  | fails hchild hvisit =>
    rw [Visitor.visitPlaces, hchild]
    exact Run.bind_of_error (logVisits_apply hvisit log) _
  | turn hchild hvisit hplace _ ih =>
    rw [Visitor.visitPlaces, hchild]
    refine (Run.bind_of_ok (logVisits_apply hvisit log) _).trans ?_
    rw [hplace]
    refine (ih _).trans ?_
    rw [List.append_assoc, List.singleton_append]

theorem visit_apply (h : Turns visit places n s visits last) {x : Visit σ ε} (hx : x ∈ visits) :
    visit x.parent x.child x.before = (x.outcome, x.after) := by
  induction h with
  | done n s => cases hx
  | fails hchild hvisit =>
    cases List.mem_singleton.1 hx
    exact hvisit
  | turn hchild hvisit hplace _ ih =>
    rcases List.mem_cons.1 hx with rfl | hx
    · exact hvisit
    · exact ih hx

end Turns

/-! ## The run of the loop -/

/-- From the middle of the loop, no place is missing, and the visits are to the children still to
come. -/
theorem exists_turns (visit : Node → Node → Run σ (Failure ε) Node) (n : Node)
    (done rest : List Node) (h : (done ++ rest).length = n.children.length) (s : σ) :
    ∃ visits last, Turns visit (List.range' done.length rest.length) (n.withChildren (done ++ rest))
        s visits last ∧
      visits.map (·.child) <+: rest ∧
      ∀ r, last.1 = .ok r → ∃ results, results.length = rest.length ∧
        visits.map (·.outcome) = results.map .ok ∧ r = n.withChildren (done ++ results) := by
  induction rest generalizing done s with
  | nil =>
    refine ⟨[], _, .done _ s, List.prefix_rfl, ?_⟩
    rintro r ⟨⟩
    exact ⟨[], rfl, rfl, rfl⟩
  | cons c rest ih =>
    have hheld : (done ++ placeholder :: rest).length = n.children.length := by simpa using h
    have hchild := Node.exchange?_append h placeholder
    rw [List.length_cons, List.range'_succ]
    rcases hvisit : visit (n.withChildren (done ++ placeholder :: rest)) c s with ⟨e | r, t⟩
    · exact ⟨_, _, .fails hchild hvisit, by simp, nofun⟩
    · obtain ⟨visits, last, hturns, hfirst, hok⟩ := ih (done ++ [r]) (by simpa using h) t
      rw [List.length_append, List.length_singleton, List.append_assoc, List.singleton_append]
        at hturns
      refine ⟨_, last, .turn hchild hvisit (Node.exchange?_append hheld r) hturns, ?_, ?_⟩
      · rw [List.map_cons]
        exact List.cons_prefix_cons.2 ⟨rfl, hfirst⟩
      · intro m hm
        obtain ⟨results, hlen, houtcomes, rfl⟩ := hok m hm
        refine ⟨r :: results, by rw [List.length_cons, hlen], ?_, ?_⟩
        · rw [List.map_cons, houtcomes, List.map_cons]
        · rw [List.append_assoc, List.singleton_append]

/-- The loop over the children of a node from one state, with its visits. -/
structure ExactLoop (visit : Node → Node → Run σ (Failure ε) Node) (n : Node) (s : σ)
    (visits : List (Visit σ ε)) : Prop where
  /-- No place is missing, neither before a visit nor after it. -/
  turns : Turns visit (List.range n.children.length) n s visits (Visitor.visitInPlace visit n s)
  /-- The loop makes these visits and no others: visits that write themselves into the state write
  them, in that order. -/
  made : ∀ log, Visitor.visitInPlace (logVisits visit) n (s, log) =
    ((Visitor.visitInPlace visit n s).1, ((Visitor.visitInPlace visit n s).2, log ++ visits))
  /-- What is noted of a visit is what comes of it. -/
  calls : ∀ x ∈ visits, visit x.parent x.child x.before = (x.outcome, x.after)
  /-- The visits are to children of the node from the first one on, in order. -/
  child : visits.map (·.child) <+: n.children
  /-- If the loop succeeds, each child has been visited once, and the node is the same except that
  each child has become what came of its visit. -/
  result : ∀ r t, Visitor.visitInPlace visit n s = (.ok r, t) →
    visits.map (·.child) = n.children ∧ r.own = n.own ∧ r.children.length = n.children.length ∧
      visits.map (·.outcome) = r.children.map .ok
  /-- A node of a kind without children is left alone. -/
  childless : n.kind.hasChildren = false →
    visits = [] ∧ Visitor.visitInPlace visit n s = (.ok n, s)

/-- **The loop over the children is exact.** -/
theorem walkChildren_exact (v : Visitor σ ε) (depth : Nat) (n : Node) (s : σ) :
    ∃ visits, ExactLoop (fun parent c => v.walk depth (some parent) c) n s visits := by
  set visit : Node → Node → Run σ (Failure ε) Node := fun parent c => v.walk depth (some parent) c
  obtain ⟨visits, last, hturns, hfirst, hok⟩ := exists_turns visit n [] n.children rfl s
  rw [List.nil_append, Node.withChildren_children, List.length_nil, ← List.range_eq_range']
    at hturns
  have hlast : Visitor.visitInPlace visit n s = last := hturns.visitPlaces_apply
  subst hlast
  refine ⟨visits, hturns, hturns.logged, fun x hx => hturns.visit_apply hx, hfirst, ?_, ?_⟩
  · intro r t hr
    obtain ⟨results, hlen, houtcomes, rfl⟩ := hok r (by rw [hr])
    have hvisits : visits.length = n.children.length := by
      have hlengths := congrArg List.length houtcomes
      rw [List.length_map, List.length_map] at hlengths
      exact hlengths.trans hlen
    have hresults : (n.withChildren results).children = results :=
      Node.children_withChildren_of_length hlen
    rw [List.nil_append, hresults, Node.own_withChildren]
    exact ⟨hfirst.eq_of_length (by rw [List.length_map, hvisits]), rfl, hlen, houtcomes⟩
  · intro hn
    have hchildren := (Node.hasChildren_or_children_eq_nil n).resolve_left (by simp [hn])
    rw [hchildren] at hturns
    generalize Visitor.visitInPlace visit n s = last at hturns ⊢
    cases hturns
    exact ⟨rfl, rfl⟩

end HtmlWalk
