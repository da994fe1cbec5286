import HtmlWalk.Proofs.Walk.Level

/-!
# Rules for walks

What holds of every run of a walk is proved by rules, one for each step of which walks are made.
`Recorder.Ensures M P E` says that, from any state, all marks satisfy `M`, and that the run ends
with a value that satisfies `P` or with a failure that satisfies `E`.

A sweep ensures what the callbacks of its side keep (`Visitor.recordSweep_ensures`); the loop over
the children ensures that each child is related to what its visit makes of it
(`Visitor.recordBelow_ensures`). Together these are the rule for one level
(`Visitor.recordWalk_ensures`), so that a property of walks is an induction on the depth with the
property of the node and of its children to choose.
-/

namespace HtmlWalk

variable {σ ε α β : Type}

/-- The marks and the outcome of a run are as they should be. -/
structure Record.Meets (M : Mark ε → Prop) (P : α → Prop) (E : Failure ε → Prop)
    (r : Record σ ε α) : Prop where
  /-- Every mark satisfies `M`. -/
  marks : ∀ m ∈ r.marks, M m
  /-- A value satisfies `P`. -/
  value : ∀ a, r.result = .ok a → P a
  /-- A failure satisfies `E`. -/
  failure : ∀ e, r.result = .error e → E e

/-- From any state, the marks satisfy `M`, and the run ends with a value that satisfies `P` or with
a failure that satisfies `E`. -/
def Recorder.Ensures (M : Mark ε → Prop) (P : α → Prop) (E : Failure ε → Prop)
    (x : Recorder σ ε α) : Prop := ∀ s, (x s).Meets M P E

/-! ## Rules for recorders -/

namespace Recorder.Ensures

variable {M M' : Mark ε → Prop} {P : α → Prop} {Q : β → Prop} {E E' : Failure ε → Prop}
  {x : Recorder σ ε α} {a : α}

theorem of_forall (hM : ∀ m, M m) (hP : ∀ a, P a) (hE : ∀ e, E e) : x.Ensures M P E :=
  fun _ => ⟨fun m _ => hM m, fun a _ => hP a, fun e _ => hE e⟩

theorem mono {P' : α → Prop} (hx : x.Ensures M P E) (hM : ∀ m, M m → M' m)
    (hP : ∀ a, P a → P' a) (hE : ∀ e, E e → E' e) : x.Ensures M' P' E' := fun s =>
  ⟨fun m hm => hM m ((hx s).marks m hm), fun a ha => hP a ((hx s).value a ha),
    fun e he => hE e ((hx s).failure e he)⟩

protected theorem pure (ha : P a) : Ensures M P E (pure a : Recorder σ ε α) := fun s => by
  rw [pure_apply]
  exact ⟨nofun, fun _ h => by cases h; exact ha, nofun⟩

theorem fail {e : Failure ε} (he : E e) : (fail e : Recorder σ ε α).Ensures M P E := fun _ =>
  ⟨nofun, nofun, fun _ h => by cases h; exact he⟩

protected theorem bind {f : α → Recorder σ ε β} (hx : x.Ensures M P E)
    (hf : ∀ a, P a → (f a).Ensures M Q E) : Ensures M Q E (x >>= f) := by
  intro s
  cases h : (x s).result with
  | error e =>
    rw [bind_of_error h]
    exact ⟨(hx s).marks, nofun, fun _ h' => by cases h'; exact (hx s).failure e h⟩
  | ok a =>
    have hrest := hf a ((hx s).value a h) (x s).state
    rw [bind_of_ok h]
    refine ⟨fun m hm => ?_, hrest.value, hrest.failure⟩
    exact (List.mem_append.1 hm).elim ((hx s).marks m) (hrest.marks m)

theorem note_bind {m : Mark ε} (hm : M m) (hx : x.Ensures M P E) :
    Ensures M P E (Recorder.note m >>= fun _ => x) := fun s => by
  rw [Recorder.note_bind]
  exact ⟨List.forall_mem_cons.2 ⟨hm, (hx s).marks⟩, (hx s).value, (hx s).failure⟩

theorem under {i : Nat} (hM : ∀ m, M' m → M (m.under i)) (hx : x.Ensures M' P E) :
    (x.under i).Ensures M P E := fun s =>
  ⟨List.forall_mem_map.2 fun m hm => hM m ((hx s).marks m hm), (hx s).value, (hx s).failure⟩

theorem foldlM {ι : Type} {f : α → ι → Recorder σ ε α} (hf : ∀ a i, P a → (f a i).Ensures M P E)
    (is : List ι) (ha : P a) : Ensures M P E (is.foldlM f a) := by
  induction is generalizing a with
  | nil => exact .pure ha
  | cons i is ih =>
    rw [List.foldlM_cons]
    exact (hf a i ha).bind fun b hb => ih hb

theorem invoke {phase : Phase} {k : Kind} {f : Callback σ ε} {n : Node} {parent : Option Node}
    {P : Node → Prop} (hM : ∀ outcome, M (.calls [] ⟨phase, k, n, parent, outcome⟩))
    (hP : ∀ s r t, f n parent s = (.ok r, t) → P r)
    (hE : ∀ s e t, f n parent s = (.error e, t) → E (.raised e)) :
    (Recorder.invoke phase k f n parent).Ensures M P E := by
  intro s
  rw [invoke_apply]
  refine ⟨List.forall_mem_singleton.2 (hM _), ?_, ?_⟩
  · intro r hr
    cases h : f n parent s with
    | mk outcome t =>
      rw [h] at hr
      cases outcome with
      | ok m => cases hr; exact hP s r t h
      | error e => cases hr
  · intro e he
    cases h : f n parent s with
    | mk outcome t =>
      rw [h] at he
      cases outcome with
      | ok m => cases he
      | error d => cases he; exact hE s d t h

end Recorder.Ensures

/-! ## Rules for the steps of a walk -/

namespace Visitor

variable {v : Visitor σ ε} {phase : Phase} {M M' : Mark ε → Prop} {P Q : Node → Prop}
  {R : Node → Node → Prop} {E : Failure ε → Prop} {depth : Nat} {parent : Option Node} {n : Node}

/-- Given a node that satisfies `P`, the callbacks of one side return such a node, or fail with an
error that satisfies `E`. -/
def Keeps (v : Visitor σ ε) (phase : Phase) (P : Node → Prop) (E : Failure ε → Prop) : Prop :=
  ∀ k f, v.callback? phase k = some f → ∀ n parent s, n.kind = k → P n →
    (∀ r t, f n parent s = (.ok r, t) → P r) ∧ ∀ e t, f n parent s = (.error e, t) → E (.raised e)

/-- A sweep ensures what its callbacks keep. Its marks are at the root, and the nodes that it
passes to callbacks satisfy the property too. -/
theorem recordSweep_ensures (hv : v.Keeps phase P E)
    (hM : ∀ x : Mark ε, x.pos = [] → (∀ c, x.call? = some c → P c.node) → M x)
    (parent : Option Node) (hn : P n) : (v.recordSweep phase parent n).Ensures M P E := by
  have hdispatch : ∀ m k, P m → (v.recordDispatch phase parent m k).Ensures M P E := by
    intro m k hm
    unfold recordDispatch
    by_cases hk : k.matchesNode m = true
    · rw [if_pos hk]
      cases hf : v.callback? phase k with
      | none => exact .pure hm
      | some f =>
        have hcall := fun s => hv k f hf m (parentFor k parent) s ((k.matchesNode_iff m).1 hk) hm
        refine .invoke (fun outcome => hM _ rfl ?_) (fun s => (hcall s).1) fun s => (hcall s).2
        rintro c ⟨⟩
        exact hm
    · rw [if_neg hk]
      exact .pure hm
  refine .note_bind (hM _ rfl nofun) ((Recorder.Ensures.foldlM hdispatch _ hn).bind fun m hm => ?_)
  exact .note_bind (hM _ rfl nofun) (.pure hm)

/-- The loop over the children ensures that each child is related to the result of its visit. -/
theorem recordChildren_ensures {visit : Node → Node → Recorder σ ε Node}
    (hM : ∀ i m, M' m → M (m.under i)) {cs : List Node}
    (hvisit : ∀ p, ∀ c ∈ cs, (visit p c).Ensures M' (R c) E) (n : Node) (done : List Node) :
    (recordChildren visit n done cs).Ensures M
      (fun rs => ∃ ds, List.Forall₂ R cs ds ∧ rs = done ++ ds) E := by
  induction cs generalizing done with
  | nil => exact .pure ⟨[], .nil, done.append_nil.symm⟩
  | cons c cs ih =>
    refine ((hvisit _ c List.mem_cons_self).under (hM _)).bind fun r hr => ?_
    refine (ih (fun p d hd => hvisit p d (List.mem_cons_of_mem c hd)) _).mono (fun _ h => h) ?_
      fun _ h => h
    rintro _ ⟨ds, hds, rfl⟩
    exact ⟨r :: ds, .cons hr hds, List.append_assoc done [r] ds⟩

/-- What becomes of a node between the two sweeps, if each child is related to its result. -/
def Rebuilds (v : Visitor σ ε) (R : Node → Node → Prop) (n m : Node) : Prop :=
  if v.descends then ∃ cs, List.Forall₂ R n.children cs ∧ m = n.withChildren cs else m = n

theorem Rebuilds.cases {m : Node} (h : v.Rebuilds R n m) :
    (v.descends = true ∧ ∃ cs, List.Forall₂ R n.children cs ∧ m = n.withChildren cs) ∨
      v.descends = false ∧ m = n := by
  unfold Rebuilds at h
  by_cases hd : v.descends = true
  · exact .inl ⟨hd, by rwa [if_pos hd] at h⟩
  · exact .inr ⟨Bool.not_eq_true _ ▸ hd, by rwa [if_neg hd] at h⟩

theorem Rebuilds.of_right {m : Node} (h : v.Rebuilds (fun _ r => P r) n m) :
    m = n ∨ ∃ cs, (∀ c ∈ cs, P c) ∧ m = n.withChildren cs := by
  rcases h.cases with ⟨-, cs, hcs, rfl⟩ | ⟨-, rfl⟩
  · have hright : List.Forall₂ (fun c _ => P c ∧ True) cs n.children :=
      hcs.flip.imp fun _ _ hc => ⟨hc, trivial⟩
    exact .inr ⟨cs, ((List.forall₂_and_left cs _).1 hright).1, rfl⟩
  · exact .inl rfl

theorem recordBelow_ensures {visit : Node → Node → Recorder σ ε Node}
    (hM : ∀ i m, M' m → M (m.under i))
    (hvisit : ∀ p, ∀ c ∈ n.children, (visit p c).Ensures M' (R c) E) :
    (v.recordBelow visit n).Ensures M (v.Rebuilds R n) E := by
  unfold recordBelow Rebuilds
  by_cases hd : v.descends = true
  · simp only [if_pos hd]
    refine (recordChildren_ensures hM hvisit n []).bind ?_
    rintro _ ⟨cs, hcs, rfl⟩
    exact .pure ⟨_, hcs, rfl⟩
  · simp only [if_neg hd]
    exact .pure rfl

/-- **One level of a walk.** The first sweep ends with a node that satisfies `Q`, the visits relate
its children to their results by `R`, and the last sweep is of the node with these results. -/
theorem recordWalk_ensures (henter : (v.recordSweep .enter parent n).Ensures M Q E)
    (hM : ∀ i m, M' m → M (m.under i))
    (hvisit : ∀ m, Q m → ∀ p, ∀ c ∈ m.children,
      (v.recordWalk depth (some p) c).Ensures M' (R c) E)
    (hleave : ∀ m m', Q m → v.Rebuilds R m m' →
      (v.recordSweep .leave parent m').Ensures M P E) :
    (v.recordWalk (depth + 1) parent n).Ensures M P E := by
  rw [recordWalk_succ]
  refine henter.bind fun m hm => ?_
  exact (recordBelow_ensures hM (hvisit m hm)).bind fun m' hm' => hleave m m' hm hm'

/-! ## From walks to traversals -/

/-- What a walk from the root ensures is ensured by the traversal, which may fail before it. -/
theorem record_ensures (h : (v.recordWalk depth none n).Ensures M P E) (hE : ∀ e, E (.invalid e)) :
    (v.record depth n).Ensures M P E := by
  cases hv : v.validate with
  | error e => rw [record_of_invalid hv]; exact .fail (hE e)
  | ok u => rw [record_of_valid hv]; exact h

theorem result_of_traverse {r : Node} {s t : σ} (h : v.traverse depth n s = (.ok r, t)) :
    (v.record depth n s).result = .ok r := by
  rw [traverse_eq_record] at h
  exact congrArg Prod.fst h

end Visitor

end HtmlWalk
