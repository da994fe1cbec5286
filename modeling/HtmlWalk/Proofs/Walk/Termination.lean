import HtmlWalk.Proofs.Walk.Height

/-!
# Walks that end

A walk is given a bound on its depth, which can only cut it off: if a walk ends under some bound, it
ends in the same way, and leaves the same record, under every greater one
(`Visitor.recordWalk_extendedBy`). A walk that goes on for ever is one that every bound cuts off.

**Theorem (`traverse_terminates`).** If no enter callback makes a tree higher, a walk ends, whatever
else its callbacks do: it has one outcome, under all bounds from the height of the tree on, and no
more walks are ever under way than the tree is high.

The condition cannot be left out. A callback that wraps each element that it enters is called again
for the element inside, and no bound is enough (`traverse_deepen`).
-/

namespace HtmlWalk

variable {σ ε α β : Type}

/-! ## Greater bounds -/

/-- A run that is not stopped for want of depth is the same run in `y`. -/
def Recorder.ExtendedBy (x y : Recorder σ ε α) : Prop :=
  ∀ s, (x s).result ≠ .error .tooDeep → y s = x s

namespace Recorder.ExtendedBy

protected theorem refl (x : Recorder σ ε α) : x.ExtendedBy x := fun _ _ => rfl

theorem trans {x y z : Recorder σ ε α} (hxy : x.ExtendedBy y) (hyz : y.ExtendedBy z) :
    x.ExtendedBy z := by
  intro s hs
  have hy := hxy s hs
  rw [hyz s (by rwa [hy]), hy]

protected theorem bind {x y : Recorder σ ε α} {f g : α → Recorder σ ε β} (hxy : x.ExtendedBy y)
    (hfg : ∀ a, (f a).ExtendedBy (g a)) : Recorder.ExtendedBy (x >>= f) (y >>= g) := by
  intro s hs
  cases h : (x s).result with
  | error e =>
    rw [bind_of_error h] at hs ⊢
    have hne : (x s).result ≠ .error .tooDeep := by
      rw [h]
      rintro ⟨⟩
      exact hs rfl
    have hy := hxy s hne
    rw [bind_of_error (by rw [hy, h]), hy]
  | ok a =>
    rw [bind_of_ok h] at hs ⊢
    have hy := hxy s (by rw [h]; nofun)
    rw [bind_of_ok (by rw [hy, h]), hy, hfg a _ hs]

theorem under {x y : Recorder σ ε α} (h : x.ExtendedBy y) (i : Nat) :
    (x.under i).ExtendedBy (y.under i) := by
  intro s hs
  simp only [Recorder.under, h s hs]

end Recorder.ExtendedBy

namespace Visitor

open Recorder

theorem recordChildren_extendedBy {visit visit' : Node → Node → Recorder σ ε Node}
    (h : ∀ p c, (visit p c).ExtendedBy (visit' p c)) (n : Node) (done cs : List Node) :
    (recordChildren visit n done cs).ExtendedBy (recordChildren visit' n done cs) := by
  induction cs generalizing done with
  | nil => exact .refl _
  | cons c cs ih => exact ((h _ c).under done.length).bind fun r => ih (done ++ [r])

theorem recordBelow_extendedBy (v : Visitor σ ε) {visit visit' : Node → Node → Recorder σ ε Node}
    (h : ∀ p c, (visit p c).ExtendedBy (visit' p c)) (n : Node) :
    (v.recordBelow visit n).ExtendedBy (v.recordBelow visit' n) := by
  unfold recordBelow
  split
  · exact (recordChildren_extendedBy h n [] n.children).bind fun cs => .refl _
  · exact .refl _

/-- One level more changes nothing for a walk that is not cut off. -/
theorem recordWalk_extendedBy_succ (v : Visitor σ ε) (depth : Nat) (parent : Option Node)
    (n : Node) : (v.recordWalk depth parent n).ExtendedBy (v.recordWalk (depth + 1) parent n) := by
  induction depth generalizing parent n with
  | zero => exact fun s hs => absurd rfl hs
  | succ depth ih =>
    rw [recordWalk_succ v depth, recordWalk_succ v (depth + 1)]
    refine .bind (.refl _) fun m => ?_
    exact (v.recordBelow_extendedBy (fun p c => ih (some p) c) m).bind fun m => .refl _

theorem recordWalk_extendedBy (v : Visitor σ ε) {depth depth' : Nat} (h : depth ≤ depth')
    (parent : Option Node) (n : Node) :
    (v.recordWalk depth parent n).ExtendedBy (v.recordWalk depth' parent n) := by
  induction h with
  | refl => exact .refl _
  | step _ ih => exact ih.trans (v.recordWalk_extendedBy_succ _ parent n)

end Visitor

/-! ## Termination -/

/-- **A walk ends if no enter callback makes a tree higher.** Under all bounds from the height of
the tree on there is one outcome, and none of the nested walks is cut off. Walks are nested as deep
as the tree is high at most. -/
theorem traverse_terminates {v : Visitor σ ε} (hv : v.validate = .ok ())
    (henter : v.KeepsHeight .enter) (n : Node) (s : σ) :
    (∃ outcome : Except (Failure ε) Node × σ, outcome.1 ≠ .error .tooDeep ∧
      ∀ depth, n.height ≤ depth → v.traverse depth n s = outcome) ∧
    ∀ depth, ∀ x ∈ (v.record depth n s).marks, x.nesting ≤ n.height := by
  constructor
  · have henough : (v.recordWalk n.height none n s).result ≠ .error .tooDeep := by
      intro htoo
      exact Nat.lt_irrefl _
        ((v.recordWalk_nesting henter n.height none (Nat.le_refl _) s).failure _ htoo rfl)
    refine ⟨v.walk n.height none n s, by rwa [walk_eq_recordWalk], fun depth hdepth => ?_⟩
    rw [Visitor.traverse_of_valid hv, walk_eq_recordWalk, walk_eq_recordWalk,
      v.recordWalk_extendedBy hdepth none n s henough]
  · intro depth
    rw [Visitor.record_of_valid hv]
    exact (v.recordWalk_nesting henter depth none (Nat.le_refl _) s).marks

/-- The visitor that repeats the children of each element that it enters, counts the texts and
wraps them when it leaves them. -/
def repeatAndWrap : Visitor Nat String where
  hooks
    | .element => { enter := some fun n _ => pure (n.mapChildren fun cs => cs ++ cs) }
    | .text => { leave := some fun n _ count => (.ok (.ofTag "i" [.ofTag "b" [n]]), count + 1) }
    | _ => {}

theorem keepsHeight_repeatAndWrap : repeatAndWrap.KeepsHeight .enter := by
  intro k f hf n parent s r t hk hr
  cases k <;> cases hf
  cases hr
  rw [Node.mapChildren]
  refine Nat.le_trans (n.own.height_node_le _) ?_
  rw [n.height_eq, Nat.add_le_add_iff_right, Node.heightAll_le]
  intro c hc
  exact Node.heightAll_le.1 (Nat.le_refl _) c ((List.mem_append.1 hc).elim id id)

/-- A walk that makes a tree wider on the one side and higher on the other ends under every bound
but those that are too low for the tree as it was. -/
theorem traverse_terminates_repeatAndWrap :
    repeatAndWrap.validate = .ok () ∧ repeatAndWrap.KeepsHeight .enter ∧
      ∀ depth, 2 ≤ depth → repeatAndWrap.traverse depth (.ofTag "p" [.ofText "a"]) 0 =
        (.ok (.ofTag "p" [.ofTag "i" [.ofTag "b" [.ofText "a"]],
          .ofTag "i" [.ofTag "b" [.ofText "a"]]]), 2) := by
  refine ⟨rfl, keepsHeight_repeatAndWrap, fun depth hdepth => ?_⟩
  obtain ⟨⟨outcome, -, hall⟩, -⟩ :=
    traverse_terminates rfl keepsHeight_repeatAndWrap (.ofTag "p" [.ofText "a"]) 0
  rw [hall depth hdepth, ← hall 2 (Nat.le_refl 2)]
  rfl

/-! ## A walk without end -/

/-- The visitor that wraps each element that it enters. -/
def deepen : Visitor Unit String where
  hooks
    | .element => { enter := some fun n _ => pure (.ofTag "b" [n]) }
    | _ => {}

theorem walk_deepen (depth : Nat) (parent : Option Node) (e : Element) (cs : List Node) :
    deepen.walk depth parent (.element e cs) () = (.error .tooDeep, ()) := by
  induction depth generalizing parent e cs with
  | zero => rfl
  | succ depth ih =>
    have hsweep : deepen.sweep .enter parent (.element e cs) () =
        (.ok (.ofTag "b" [.element e cs]), ()) := rfl
    rw [Visitor.walk_succ, Run.bind_of_ok hsweep]
    apply Run.bind_of_error
    rw [Visitor.below, if_pos (show deepen.descends = true from rfl), map_eq_pure_bind]
    -- The only child of the new element is the element that was entered.
    exact Run.bind_of_error (Run.bind_of_error (ih _ e cs) _) _

/-- **No bound is enough** for a walk that wraps each element that it enters. -/
theorem traverse_deepen (depth : Nat) (e : Element) (cs : List Node) :
    (deepen.traverse depth (.element e cs) ()).1 = .error .tooDeep := by
  rw [Visitor.traverse_of_valid rfl, walk_deepen]

end HtmlWalk
