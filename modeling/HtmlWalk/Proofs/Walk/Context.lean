import HtmlWalk.Proofs.Walk.Termination
import HtmlWalk.Proofs.Walk.VisitOrder

/-!
# Walks that do not look around

A callback is told the parent of its node, and it shares a state with all other callbacks. If it
makes no use of either (`Visitor.Isolated`), a walk of a subtree cannot depend on what is around it.

**Theorem (`traverse_isolated`).** Whatever the parent, the walk is the same. A walk that ends is a
sweep, a walk of each child by itself, and a sweep; and at every position it does to the node that
arrives there what it would do to that node as a root.

The positions need no condition on the callbacks. Below a place are the marks of a single walk
(`exists_walk_below`), hence at every position the node that arrives is walked, under some parent
and from some state (`exists_walk_at`). What isolation adds is that neither matters.
-/

namespace HtmlWalk

variable {σ ε α β : Type}

/-! ## Walks at positions -/

section Positions

variable {v : Visitor σ ε} {depth : Nat} {parent : Option Node} {n r : Node} {s : σ}

/-- The marks below a place are those of a visit to a child, and if the visit fails, so do the
visits to the children together. -/
theorem exists_visit_below {visit : Node → Node → Recorder σ ε Node} {done rest : List Node}
    {j : Nat} {y : Mark ε} (h : y.under j ∈ (Visitor.recordChildren visit n done rest s).marks) :
    done.length ≤ j ∧ ∃ x c t,
      (∀ z : Mark ε, z.under j ∈ (Visitor.recordChildren visit n done rest s).marks ↔
        z ∈ (visit x c t).marks) ∧
      ∀ e, (visit x c t).result = .error e →
        (Visitor.recordChildren visit n done rest s).result = .error e := by
  induction rest generalizing done s j y with
  | nil => cases h
  | cons c rest ih =>
    set x := n.withChildren (done ++ placeholder :: rest)
    have hfirst : ∀ (i : Nat) (z : Mark ε), z.under i ∈ ((visit x c).under done.length s).marks ↔
        done.length = i ∧ z ∈ (visit x c s).marks := by
      intro i z
      simp only [Recorder.under, List.mem_map, Mark.under_inj]
      constructor
      · rintro ⟨z', hz, hi, rfl⟩
        exact ⟨hi, hz⟩
      · rintro ⟨hi, hz⟩
        exact ⟨z, hz, hi, rfl⟩
    have hresult : ((visit x c).under done.length s).result = (visit x c s).result := rfl
    rw [Visitor.recordChildren] at h ⊢
    cases hr : (visit x c s).result with
    | error e =>
      rw [Recorder.bind_of_error (hresult.trans hr)] at h ⊢
      obtain ⟨rfl, -⟩ := (hfirst j y).1 h
      refine ⟨Nat.le_refl _, x, c, s, fun z => ?_, fun e' he' => ?_⟩
      · exact (hfirst _ z).trans (and_iff_right rfl)
      · cases hr.symm.trans he'
        rfl
    | ok m =>
      rw [Recorder.bind_of_ok (hresult.trans hr)] at h ⊢
      simp only [List.mem_append, hfirst] at h ⊢
      -- The marks of the later visits are below later places.
      have hlater : ∀ (i : Nat) (z : Mark ε), z.under i ∈ (Visitor.recordChildren visit n
          (done ++ [m]) rest ((visit x c).under done.length s).state).marks → done.length < i := by
        intro i z hz
        have hle := (ih hz).1
        rwa [List.length_append, List.length_singleton] at hle
      rcases h with ⟨rfl, -⟩ | h
      · refine ⟨Nat.le_refl _, x, c, s, fun z => ?_, fun e he => ?_⟩
        · rw [and_iff_right rfl, or_iff_left]
          exact fun hz => Nat.lt_irrefl _ (hlater _ z hz)
        · rw [hr] at he
          cases he
      · have hlt := hlater j y h
        obtain ⟨-, x', c', t, hmarks, herror⟩ := ih h
        refine ⟨Nat.le_of_lt hlt, x', c', t, fun z => ?_, herror⟩
        rw [or_iff_right fun hz => Nat.ne_of_lt hlt hz.1]
        exact hmarks z

/-- What is true of the loop over the children is true of all that is between the sweeps. -/
theorem exists_visit_of_under_mem_below {visit : Node → Node → Recorder σ ε Node} {j : Nat}
    {y : Mark ε} (h : y.under j ∈ (v.recordBelow visit n s).marks) : ∃ x c t,
      (∀ z : Mark ε, z.under j ∈ (v.recordBelow visit n s).marks ↔ z ∈ (visit x c t).marks) ∧
      ∀ e, (visit x c t).result = .error e → (v.recordBelow visit n s).result = .error e := by
  unfold Visitor.recordBelow at h ⊢
  by_cases hd : v.descends = true
  · rw [if_pos hd] at h ⊢
    cases hr : (Visitor.recordChildren visit n [] n.children s).result with
    | error e =>
      rw [Recorder.bind_of_error hr] at h ⊢
      obtain ⟨-, x, c, t, hmarks, herror⟩ := exists_visit_below h
      refine ⟨x, c, t, hmarks, fun e' he' => ?_⟩
      cases hr.symm.trans (herror e' he')
      rfl
    | ok cs =>
      rw [Recorder.bind_of_ok hr, Recorder.pure_apply, List.append_nil] at h ⊢
      obtain ⟨-, x, c, t, hmarks, herror⟩ := exists_visit_below h
      refine ⟨x, c, t, hmarks, fun e he => ?_⟩
      have hnone := hr.symm.trans (herror e he)
      cases hnone
  · rw [if_neg hd] at h
    cases h

/-- The marks below a place are those of a walk, and if it fails, so does the whole walk. -/
theorem exists_walk_below {j : Nat} {y : Mark ε}
    (h : y.under j ∈ (v.recordWalk (depth + 1) parent n s).marks) : ∃ x c t,
      (∀ z : Mark ε, z.under j ∈ (v.recordWalk (depth + 1) parent n s).marks ↔
        z ∈ (v.recordWalk depth x c t).marks) ∧
      ∀ e, (v.recordWalk depth x c t).result = .error e →
        (v.recordWalk (depth + 1) parent n s).result = .error e := by
  -- The sweeps leave no marks below a place, so only the visits to the children count.
  have hsweep : ∀ (phase : Phase) (m : Node) (t : σ) (z : Mark ε),
      z.under j ∉ (v.recordSweep phase parent m t).marks := by
    intro phase m t z hz
    simpa using (mem_recordSweep hz).1
  rw [recordWalk_succ] at h ⊢
  cases henter : (v.recordSweep .enter parent n s).result with
  | error e =>
    rw [Recorder.bind_of_error henter] at h
    exact absurd h (hsweep _ _ _ y)
  | ok m =>
    rw [Recorder.bind_of_ok henter] at h ⊢
    generalize (v.recordSweep .enter parent n s).state = t at h ⊢
    simp only [List.mem_append, hsweep, false_or] at h ⊢
    cases hbelow : (v.recordBelow (childVisit v depth) m t).result with
    | error e =>
      rw [Recorder.bind_of_error hbelow] at h ⊢
      obtain ⟨x, c, u, hmarks, herror⟩ := exists_visit_of_under_mem_below h
      exact ⟨_, c, u, hmarks, fun e' he' => hbelow.symm.trans (herror e' he')⟩
    | ok m' =>
      rw [Recorder.bind_of_ok hbelow] at h ⊢
      simp only [List.mem_append, hsweep, or_false] at h ⊢
      obtain ⟨x, c, u, hmarks, herror⟩ := exists_visit_of_under_mem_below h
      refine ⟨_, c, u, hmarks, fun e he => ?_⟩
      have hnone := hbelow.symm.trans (herror e he)
      cases hnone

/-- A walk ends the last sweep at its root if and only if it succeeds. -/
theorem ends_leave_mem_recordWalk :
    Mark.ends [] .leave r ∈ (v.recordWalk depth parent n s).marks ↔
      (v.recordWalk depth parent n s).result = .ok r := by
  refine ⟨fun h => ?_, ends_mem_of_ok⟩
  cases depth with
  | zero => cases h
  | succ depth =>
    have henter : ∀ m, Mark.ends [] .leave r ∉ (v.recordSweep .enter parent m s).marks := by
      intro m hm
      cases (mem_recordSweep hm).2
    have hbelow : ∀ m t,
        Mark.ends [] .leave r ∉ (v.recordBelow (childVisit v depth) m t).marks := by
      intro m t hm
      obtain ⟨records, results, -, hmarks, -⟩ := recordBelow_visits v (childVisit v depth) m t
      rw [hmarks] at hm
      exact pos_ne_nil_of_mem_gather hm rfl
    rw [recordWalk_succ] at h ⊢
    cases hA : (v.recordSweep .enter parent n s).result with
    | error e =>
      rw [Recorder.bind_of_error hA] at h
      exact absurd h (henter n)
    | ok m =>
      rw [Recorder.bind_of_ok hA] at h ⊢
      generalize (v.recordSweep .enter parent n s).state = t at h ⊢
      simp only [List.mem_append, henter, false_or] at h
      cases hB : (v.recordBelow (childVisit v depth) m t).result with
      | error e =>
        rw [Recorder.bind_of_error hB] at h
        exact absurd h (hbelow m t)
      | ok m' =>
        rw [Recorder.bind_of_ok hB] at h ⊢
        simp only [List.mem_append, hbelow, false_or] at h
        exact (ends_mem_recordSweep.1 h).2.2

/-- **Every position is walked.** The node that arrives at a position is walked: the last sweep
there ends with what the walk returns, and if the walk fails, so does the whole walk. -/
theorem exists_walk_at {p : Position} {c : Node}
    (h : Arrives (v.recordWalk depth parent n s).marks p c) : ∃ depth' parent' t, depth' ≤ depth ∧
      (∀ r, Mark.ends p .leave r ∈ (v.recordWalk depth parent n s).marks ↔
        (v.recordWalk depth' parent' c t).result = .ok r) ∧
      ∀ e, (v.recordWalk depth' parent' c t).result = .error e →
        (v.recordWalk depth parent n s).result = .error e := by
  induction p generalizing depth parent n s with
  | nil =>
    obtain ⟨q, hq⟩ := h
    cases depth with
    | zero => cases hq
    | succ depth =>
      obtain ⟨-, rfl⟩ := begins_nil_mem_recordWalk.1 hq
      exact ⟨depth + 1, parent, s, Nat.le_refl _, fun r => ends_leave_mem_recordWalk, fun e => id⟩
  | cons j p ih =>
    obtain ⟨q, hq⟩ := h
    cases depth with
    | zero => cases hq
    | succ depth =>
      obtain ⟨x, d, t, hmarks, herror⟩ := exists_walk_below (y := .begins p .enter q c) hq
      obtain ⟨depth', parent', u, hle, hends, herror'⟩ :=
        ih ⟨q, (hmarks (.begins p .enter q c)).1 hq⟩
      refine ⟨depth', parent', u, Nat.le_succ_of_le hle, fun r => ?_, fun e he => ?_⟩
      · exact (hmarks (.ends p .leave r)).trans (hends r)
      · exact herror e (herror' e he)

/-- One level more changes nothing for a walk that ends. -/
theorem walk_of_le {depth' : Nat} (h : depth ≤ depth')
    (hs : (v.walk depth parent n s).1 ≠ .error .tooDeep) :
    v.walk depth' parent n s = v.walk depth parent n s := by
  rw [walk_eq_recordWalk] at hs
  rw [walk_eq_recordWalk, walk_eq_recordWalk, v.recordWalk_extendedBy h parent n s hs]

end Positions

/-! ## Runs that stand still -/

/-- A run that neither reads nor writes the state. -/
def Run.Still (x : Run σ ε α) : Prop := ∃ r : Except ε α, ∀ s, x s = (r, s)

namespace Run.Still

protected theorem pure (a : α) : Run.Still (pure a : Run σ ε α) := ⟨.ok a, fun _ => rfl⟩

protected theorem throw (e : ε) : Run.Still (throw e : Run σ ε α) := ⟨.error e, fun _ => rfl⟩

protected theorem bind {x : Run σ ε α} {f : α → Run σ ε β} (hx : x.Still) (hf : ∀ a, (f a).Still) :
    (x >>= f).Still := by
  obtain ⟨r, hr⟩ := hx
  cases r with
  | error e => exact ⟨.error e, fun s => Run.bind_of_error (hr s) f⟩
  | ok a =>
    obtain ⟨r', hr'⟩ := hf a
    exact ⟨r', fun s => (Run.bind_of_ok (hr s) f).trans (hr' s)⟩

theorem foldlM {ι : Type} {f : α → ι → Run σ ε α} (hf : ∀ a i, (f a i).Still) (is : List ι)
    (a : α) : (is.foldlM f a).Still := by
  induction is generalizing a with
  | nil => exact .pure a
  | cons i is ih =>
    rw [List.foldlM_cons]
    exact (hf a i).bind ih

theorem lift {x : Run σ ε α} (hx : x.Still) : (Run.lift x).Still := by
  obtain ⟨r, hr⟩ := hx
  refine ⟨r.mapError .raised, fun s => ?_⟩
  rw [Run.lift_apply, hr]

end Run.Still

/-! ## Isolated visitors -/

namespace Visitor

/-- Each callback is a function of the node alone: it makes no use of the parent and none of the
state. -/
def Isolated (v : Visitor σ ε) : Prop :=
  ∀ phase k f, v.callback? phase k = some f →
    ∃ g : Node → Except ε Node, ∀ n parent s, f n parent s = (g n, s)

/-- The loop over the children when visits do not depend on the parent. -/
theorem visitChildren_const (f : Node → Run σ (Failure ε) Node) (n : Node) (done cs : List Node) :
    visitChildren (fun _ c => f c) n done cs = (done ++ ·) <$> cs.mapM f := by
  induction cs generalizing done with
  | nil => rw [visitChildren, List.mapM_nil, map_pure, List.append_nil]
  | cons c cs ih =>
    rw [visitChildren, ← map_append_mapM_cons]
    exact bind_congr fun r => ih (done ++ [r])

namespace Isolated

variable {v : Visitor σ ε}

theorem dispatch_still (hi : v.Isolated) (phase : Phase) (parent : Option Node) (n : Node)
    (k : Kind) : (v.dispatch phase parent n k).Still := by
  unfold dispatch
  by_cases hk : k.matchesNode n = true
  · rw [if_pos hk]
    cases h : v.callback? phase k with
    | none => exact .pure n
    | some f =>
      obtain ⟨g, hg⟩ := hi phase k f h
      exact Run.Still.lift ⟨g n, fun s => hg n _ s⟩
  · rw [if_neg hk]
    exact .pure n

theorem dispatch_parent (hi : v.Isolated) (phase : Phase) (parent : Option Node) (n : Node)
    (k : Kind) : v.dispatch phase parent n k = v.dispatch phase none n k := by
  unfold dispatch
  congr 1
  cases h : v.callback? phase k with
  | none => rfl
  | some f =>
    obtain ⟨g, hg⟩ := hi phase k f h
    refine congrArg Run.lift (funext fun s => ?_)
    rw [hg, hg]

theorem sweep_still (hi : v.Isolated) (phase : Phase) (parent : Option Node) (n : Node) :
    (v.sweep phase parent n).Still :=
  .foldlM (hi.dispatch_still phase parent) phase.order n

theorem sweep_parent (hi : v.Isolated) (phase : Phase) (parent : Option Node) (n : Node) :
    v.sweep phase parent n = v.sweep phase none n := by
  have h : v.dispatch phase parent = v.dispatch phase none :=
    funext₂ (hi.dispatch_parent phase parent)
  unfold sweep
  rw [h]

/-- **The parent does not matter.** -/
theorem walk_parent (hi : v.Isolated) (depth : Nat) (parent : Option Node) (n : Node) :
    v.walk depth parent n = v.walk depth none n := by
  cases depth with
  | zero => rfl
  | succ depth =>
    rw [walk_succ, walk_succ, hi.sweep_parent .enter parent]
    simp only [hi.sweep_parent .leave parent]

/-- One level of a walk below the root: the children are walked by themselves. -/
theorem walk_level (hi : v.Isolated) (hd : v.descends = true) (depth : Nat) (n : Node) :
    v.walk (depth + 1) none n = (do
      let m ← v.sweep .enter none n
      let cs ← m.children.mapM (v.walk depth none)
      v.sweep .leave none (m.withChildren cs)) := by
  have hvisit : (fun parent c => v.walk depth (some parent) c) = fun _ c => v.walk depth none c :=
    funext₂ fun parent c => hi.walk_parent depth (some parent) c
  rw [walk_succ, hvisit]
  apply bind_congr
  intro m
  rw [below, if_pos hd, visitChildren_const]
  simp only [List.nil_append, map_eq_pure_bind, bind_pure, bind_assoc, pure_bind]

/-- **The state does not matter.** -/
theorem walk_still (hi : v.Isolated) (hd : v.descends = true) (depth : Nat) (n : Node) :
    (v.walk depth none n).Still := by
  induction depth generalizing n with
  | zero => exact .throw _
  | succ depth ih =>
    have hchildren : ∀ cs : List Node, (cs.mapM (v.walk depth none)).Still := by
      intro cs
      induction cs with
      | nil => exact .pure []
      | cons c cs ihcs =>
        rw [List.mapM_cons]
        exact (ih c).bind fun r => ihcs.bind fun rs => .pure (r :: rs)
    rw [hi.walk_level hd]
    exact (hi.sweep_still .enter none n).bind fun m =>
      (hchildren m.children).bind fun cs => hi.sweep_still .leave none _

end Isolated

end Visitor

/-- **Walks that do not look around.** If callbacks are functions of the node, and a walk below the
root ends, then it has the one result under every parent, from every state, and under every greater
bound; it is a sweep, a walk of each child by itself up to the first error, and a sweep; and at
every position it makes of the node that arrives there what it would make of it as a root. -/
theorem traverse_isolated {v : Visitor σ ε} (hv : v.validate = .ok ()) (hd : v.descends = true)
    (hi : v.Isolated) {depth : Nat} {n : Node} {s : σ}
    (hends : (v.traverse depth n s).1 ≠ .error .tooDeep) :
    (∃ r : Except (Failure ε) Node, ∀ depth' ≥ depth, ∀ parent t,
      v.traverse depth' n t = (r, t) ∧ v.walk depth' parent n t = (r, t)) ∧
    v.traverse depth n s = (do
      let m ← v.sweep .enter none n
      let cs ← m.children.mapM (v.traverse depth)
      v.sweep .leave none (m.withChildren cs)) s ∧
    ∀ p c, Arrives (v.record depth n s).marks p c →
      (v.traverse depth c s).1 ≠ .error .tooDeep ∧
      (∀ r, Mark.ends p .leave r ∈ (v.record depth n s).marks ↔
        v.traverse depth c s = (.ok r, s)) ∧
      ∀ e, v.traverse depth c s = (.error e, s) → v.traverse depth n s = (.error e, s) := by
  have hroot : v.traverse depth = v.walk depth none := funext (Visitor.traverse_of_valid hv depth)
  rw [hroot] at hends ⊢
  obtain ⟨outcome, houtcome⟩ := hi.walk_still hd depth n
  have hnotDeep : outcome ≠ .error .tooDeep := by
    rwa [houtcome] at hends
  -- No bound above `depth` makes a difference, whatever the state.
  have hle : ∀ depth' ≥ depth, ∀ t, v.walk depth' none n t = (outcome, t) := by
    intro depth' hdepth t
    rw [walk_of_le hdepth (by rwa [houtcome]), houtcome]
  refine ⟨⟨outcome, fun depth' hdepth parent t => ?_⟩, ?_, fun p c hp => ?_⟩
  · rw [Visitor.traverse_of_valid hv, hi.walk_parent depth' parent]
    exact ⟨hle depth' hdepth t, hle depth' hdepth t⟩
  · rw [houtcome, ← hi.walk_level hd]
    exact (hle _ (Nat.le_succ _) s).symm
  · rw [Visitor.record_of_valid hv] at hp ⊢
    obtain ⟨depth', parent', t, hdepth, hlast, herror⟩ := exists_walk_at hp
    obtain ⟨inner, hinner⟩ := hi.walk_still hd depth' c
    have hresult : (v.recordWalk depth' parent' c t).result = inner := by
      have h := hinner t
      rw [← hi.walk_parent depth' parent', walk_eq_recordWalk] at h
      exact congrArg Prod.fst h
    have hwhole : ∀ e, inner = .error e → outcome = .error e := by
      intro e he
      have h := houtcome s
      rw [walk_eq_recordWalk, herror e (hresult.trans he)] at h
      exact (congrArg Prod.fst h).symm
    have halone : v.walk depth none c s = (inner, s) := by
      rw [walk_of_le hdepth (by rw [hinner]; exact fun he => hnotDeep (hwhole _ he)), hinner]
    rw [halone, houtcome]
    refine ⟨fun he => hnotDeep (hwhole _ he), fun r => ?_, fun e he => ?_⟩
    · rw [hlast, hresult, Prod.mk.injEq, and_iff_left rfl]
    · rw [hwhole e (congrArg Prod.fst he)]

/-- The visitor that fills empty elements with a text, wraps texts when it leaves them, and refuses
comments. -/
def fillOrRefuse : Visitor Nat String where
  hooks
    | .element => { enter := some fun n _ => match n with
        | .element e [] => pure (.element e [.ofText "filled"])
        | n => pure n }
    | .text => { leave := some fun n _ => pure (.ofTag "b" [n]) }
    | .comment => { enter := some fun _ _ => throw "comment" }
    | _ => {}

theorem isolated_fillOrRefuse : fillOrRefuse.Isolated := by
  intro phase k f hf
  cases phase <;> cases k <;> cases hf
  · refine ⟨fun n => match n with
      | .element e [] => .ok (.element e [.ofText "filled"])
      | n => .ok n, fun n parent s => ?_⟩
    rcases n with _ | _ | _ | ⟨e, _ | _⟩ | _ | _ <;> rfl
  · exact ⟨fun _ => .error "comment", fun n parent s => rfl⟩
  · exact ⟨fun n => .ok (.ofTag "b" [n]), fun n parent s => rfl⟩

/-- The walk of this paragraph fails at its comment, but it has left the element before it as it
leaves it alone. -/
theorem traverse_isolated_fillOrRefuse :
    fillOrRefuse.validate = .ok () ∧ fillOrRefuse.descends = true ∧ fillOrRefuse.Isolated ∧
    fillOrRefuse.traverse 4 (.ofTag "p" [.ofTag "q" [.ofTag "r" []], .ofComment "c"]) 7 =
      (.error (.raised "comment"), 7) ∧
    Arrives (fillOrRefuse.record 4
      (.ofTag "p" [.ofTag "q" [.ofTag "r" []], .ofComment "c"]) 7).marks [0, 0] (.ofTag "r" []) ∧
    fillOrRefuse.traverse 4 (.ofTag "r" []) 7 =
      (.ok (.ofTag "r" [.ofTag "b" [.ofText "filled"]]), 7) := by
  have hfails : fillOrRefuse.traverse 4
      (.ofTag "p" [.ofTag "q" [.ofTag "r" []], .ofComment "c"]) 7 =
        (.error (.raised "comment"), 7) := rfl
  have harrives : Arrives (fillOrRefuse.record 4
      (.ofTag "p" [.ofTag "q" [.ofTag "r" []], .ofComment "c"]) 7).marks [0, 0] (.ofTag "r" []) :=
    ⟨some (.ofTag "q" [placeholder]), List.mem_of_getElem? (i := 6) rfl⟩
  have hends : (fillOrRefuse.traverse 4
      (.ofTag "p" [.ofTag "q" [.ofTag "r" []], .ofComment "c"]) 7).1 ≠ .error .tooDeep := by
    rw [hfails]
    simp
  obtain ⟨-, -, hall⟩ := traverse_isolated rfl rfl isolated_fillOrRefuse hends
  refine ⟨rfl, rfl, isolated_fillOrRefuse, hfails, harrives, ?_⟩
  exact ((hall [0, 0] (.ofTag "r" []) harrives).2.1 _).1 (List.mem_of_getElem? (i := 15) rfl)

end HtmlWalk
