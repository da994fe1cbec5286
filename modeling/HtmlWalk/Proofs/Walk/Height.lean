import HtmlWalk.Proofs.Walk.Rules

/-!
# How deep a walk goes

A walk is nested in the walks of the places above its own, so that the bound on the depth of a walk
is one on this nesting. If no enter callback makes a tree higher, the nesting is at most the height
of the tree (`Visitor.recordWalk_nesting`): every walk below a node is of a child of what the enter
callbacks made of it, whatever the leave callbacks do later. So a walk that may go as deep as the
tree is high never goes too deep (`Visitor.walk_not_tooDeep`). If no callback at all makes a tree
higher, neither does the walk (`Visitor.walk_height_le`).

`Run.Ends` says what holds of the value or of the failure with which a run ends, from any state; it
is what remains of `Recorder.Ensures` where there is no record.
-/

namespace HtmlWalk

variable {σ ε α β : Type}

/-! ## How runs end -/

/-- A run ends with a value that satisfies `P` or with a failure that satisfies `E`. -/
def Run.Ends (P : α → Prop) (E : ε → Prop) (x : Run σ ε α) : Prop :=
  ∀ s, match (x s).1 with
    | .ok a => P a
    | .error e => E e

namespace Run.Ends

variable {P : α → Prop} {Q : β → Prop} {E : ε → Prop} {x : Run σ ε α} {s t : σ} {a : α} {e : ε}

theorem of_ok (h : x.Ends P E) (hx : x s = (.ok a, t)) : P a := by
  have := h s
  rw [hx] at this
  exact this

theorem of_error (h : x.Ends P E) (hx : x s = (.error e, t)) : E e := by
  have := h s
  rw [hx] at this
  exact this

theorem both {P' : α → Prop} {E' : ε → Prop} (hP : x.Ends P E') (hE : x.Ends P' E) :
    x.Ends P E := by
  intro s
  rcases h : x s with ⟨e | a, t⟩
  · exact hE.of_error h
  · exact hP.of_ok h

protected theorem pure (h : P a) : Run.Ends P E (pure a : Run σ ε α) := fun _ => h

protected theorem bind {f : α → Run σ ε β} (hx : x.Ends P E) (hf : ∀ a, P a → (f a).Ends Q E) :
    Run.Ends Q E (x >>= f) := by
  intro s
  rcases h : x s with ⟨_ | a, t⟩
  · rw [Run.bind_of_error h]
    exact hx.of_error h
  · rw [Run.bind_of_ok h]
    exact hf a (hx.of_ok h) t

theorem foldlM {ι : Type} {f : α → ι → Run σ ε α} (hf : ∀ a i, P a → (f a i).Ends P E)
    (is : List ι) (h : P a) : Run.Ends P E (is.foldlM f a) := by
  induction is generalizing a with
  | nil => exact .pure h
  | cons i is ih =>
    rw [List.foldlM_cons]
    exact (hf a i h).bind fun b hb => ih hb

/-- A walk ends as its record does. -/
theorem of_recordWalk {v : Visitor σ ε} {depth : Nat} {parent : Option Node} {n : Node}
    {M : Mark ε → Prop} {P : Node → Prop} {E : Failure ε → Prop}
    (h : (v.recordWalk depth parent n).Ensures M P E) : (v.walk depth parent n).Ends P E := by
  intro s
  rw [walk_eq_recordWalk]
  cases hr : (v.recordWalk depth parent n s).result with
  | ok r => exact (h s).value r hr
  | error e => exact (h s).failure e hr

end Run.Ends

/-! ## Height -/

namespace Node

theorem height_eq (n : Node) : n.height = heightAll n.children + 1 := by
  cases n <;> simp [height, children, children?, heightAll]

theorem heightAll_le {cs : List Node} {h : Nat} : heightAll cs ≤ h ↔ ∀ c ∈ cs, c.height ≤ h := by
  induction cs with
  | nil => simp [heightAll]
  | cons c cs ih => rw [heightAll, Nat.max_le, ih, List.forall_mem_cons]

theorem height_le_succ {n : Node} {h : Nat} :
    n.height ≤ h + 1 ↔ ∀ c ∈ n.children, c.height ≤ h := by
  rw [height_eq, Nat.add_le_add_iff_right, heightAll_le]

end Node

theorem Own.height_node_le (o : Own) (cs : List Node) :
    (o.node cs).height ≤ Node.heightAll cs + 1 := by
  cases o <;> simp [Own.node, Node.height]

/-- How many walks are under way at a mark: one for each place from the root to its own. -/
def Mark.nesting (m : Mark ε) : Nat := m.pos.length + 1

namespace Visitor

variable {v : Visitor σ ε}

/-- No callback of this side makes a tree higher. -/
def KeepsHeight (v : Visitor σ ε) (phase : Phase) : Prop :=
  ∀ k f, v.callback? phase k = some f → ∀ n parent s r t, n.kind = k →
    f n parent s = (.ok r, t) → r.height ≤ n.height

theorem KeepsHeight.keeps {phase : Phase} (hv : v.KeepsHeight phase) {E : Failure ε → Prop}
    (hE : ∀ e, E (.raised e)) (h : Nat) : v.Keeps phase (·.height ≤ h) E :=
  fun k f hf n parent s hk hn =>
    ⟨fun r t hr => Nat.le_trans (hv k f hf n parent s r t hk hr) hn, fun e _ _ => hE e⟩

/-- **Nesting.** If no enter callback makes a tree higher, walks are nested as deep as the tree is
high at most; and only a bound below the height is too low. -/
theorem recordWalk_nesting (hv : v.KeepsHeight .enter) (depth : Nat) (parent : Option Node)
    {n : Node} {h : Nat} (hn : n.height ≤ h) :
    (v.recordWalk depth parent n).Ensures (fun x => x.nesting ≤ h) (fun _ => True)
      fun e => e = .tooDeep → depth < h := by
  obtain ⟨h, rfl⟩ : ∃ k, h = k + 1 := ⟨h - 1, by rw [n.height_eq] at hn; omega⟩
  induction depth generalizing parent n h with
  | zero => exact .fail fun _ => Nat.succ_pos h
  | succ depth ih =>
    have hroot : ∀ x : Mark ε, x.pos = [] → x.nesting ≤ h + 1 := fun x hx => by
      simp [Mark.nesting, hx]
    have hunder : ∀ (i : Nat) (x : Mark ε), x.nesting ≤ h → (x.under i).nesting ≤ h + 1 :=
      fun i x hx => by simpa [Mark.nesting] using hx
    refine recordWalk_ensures (R := fun _ _ => True)
      (recordSweep_ensures (hv.keeps (fun _ => nofun) _) (fun x hx _ => hroot x hx) parent hn)
      hunder ?_ ?_
    · -- A child of the node that was entered is lower than the node, so `h` is not zero.
      intro m hm p c hc
      have hlow := Node.height_le_succ.1 hm c hc
      obtain ⟨k, rfl⟩ : ∃ k, h = k + 1 := ⟨h - 1, by rw [c.height_eq] at hlow; omega⟩
      exact (ih (some p) k hlow).mono (fun _ hx => hx) (fun _ _ => trivial)
        fun e he htoo => Nat.succ_lt_succ (he htoo)
    · intro m m' _ _
      refine recordSweep_ensures (P := fun _ => True) ?_ (fun x hx _ => hroot x hx) parent trivial
      exact fun _ _ _ _ _ _ _ _ => ⟨fun _ _ _ => trivial, fun _ _ _ => nofun⟩

/-- **Depth suffices.** If no enter callback makes a tree higher, a walk that may go as deep as the
tree is high does not go too deep. -/
theorem walk_not_tooDeep (hv : v.KeepsHeight .enter) (depth : Nat) (parent : Option Node) {n : Node}
    (hn : n.height ≤ depth) : (v.walk depth parent n).Ends (fun _ => True) (· ≠ .tooDeep) := by
  refine .of_recordWalk ((recordWalk_nesting hv depth parent hn).mono (fun _ hx => hx)
    (fun _ _ => trivial) ?_)
  exact fun e he htoo => Nat.lt_irrefl depth (he htoo)

/-- If no callback makes a tree higher, neither does a walk. -/
theorem walk_height_le (hv : ∀ phase, v.KeepsHeight phase) (depth : Nat) (parent : Option Node)
    {n : Node} {h : Nat} (hn : n.height ≤ h) :
    (v.walk depth parent n).Ends (·.height ≤ h) fun _ => True := by
  suffices hrec : (v.recordWalk depth parent n).Ensures (fun _ => True) (·.height ≤ h)
      fun _ => True from .of_recordWalk hrec
  induction depth generalizing parent n h with
  | zero => exact .fail trivial
  | succ depth ih =>
    obtain ⟨h, rfl⟩ : ∃ k, h = k + 1 := ⟨h - 1, by rw [n.height_eq] at hn; omega⟩
    have hsweep : ∀ phase {m : Node}, m.height ≤ h + 1 →
        (v.recordSweep phase parent m).Ensures (fun _ => True) (·.height ≤ h + 1) fun _ => True :=
      fun phase m hm => recordSweep_ensures ((hv phase).keeps (fun _ => trivial) _)
        (fun _ _ _ => trivial) parent hm
    refine recordWalk_ensures (R := fun _ r => r.height ≤ h) (hsweep .enter hn)
      (fun _ _ _ => trivial) (fun m hm p c hc => ih (some p) (Node.height_le_succ.1 hm c hc)) ?_
    intro m m' hm hm'
    refine hsweep .leave ?_
    rcases hm'.of_right with rfl | ⟨rs, hrs, rfl⟩
    · exact hm
    · exact Nat.le_trans (m.own.height_node_le rs)
        (Nat.add_le_add_right (Node.heightAll_le.2 hrs) 1)

end Visitor

end HtmlWalk
