import HtmlWalk.Proofs.Walk.Record

/-!
# Failing callbacks

**Theorem (`traverse_fails_at_last_call`).** A valid visitor fails with an error exactly when a
callback returned that error, and the call that did so is the last one: all calls before it
succeeded, and none comes after it. If moreover the `k`-th call of a run is made to fail, the run
makes the same first `k` calls and then fails with that error.

The first half is a property of single records (`Aborts`). The second compares two runs:
`FaultAt` says what it means that a visitor behaves like another one up to its `k`-th call, and
`CutAt` is the relation that a walk of the one then has to a walk of the other. Both are kept by
the steps of a walk, hence hold of whole walks by `Reads.traverse`.
-/

namespace HtmlWalk

variable {σ τ ε α : Type}

/-! ## The failing call is the last one -/

/-- The callback returned a node. -/
def Call.Succeeds (c : Call ε) : Prop := ∃ n, c.outcome = .ok n

/-- All calls succeed, but for the last one if the run ends with an error; and that error is the
one of the last call. -/
def Aborts (calls : List (Call ε)) : Except (Failure ε) α → Prop
  | .ok _ | .error .tooDeep => ∀ c ∈ calls, c.Succeeds
  | .error (.raised e) =>
    ∃ before c, calls = before ++ [c] ∧ c.outcome = .error e ∧ ∀ b ∈ before, b.Succeeds
  | .error (.invalid _) => False

theorem Aborts.prepend {calls before : List (Call ε)} {r : Except (Failure ε) α}
    (h : Aborts calls r) (hb : ∀ c ∈ before, c.Succeeds) : Aborts (before ++ calls) r := by
  rcases r with (_ | e | _) | _
  · exact h
  · obtain ⟨mid, c, rfl, hc, hmid⟩ := h
    refine ⟨before ++ mid, c, by simp, hc, fun b hm => ?_⟩
    exact (List.mem_append.1 hm).elim (hb b) (hmid b)
  all_goals exact fun c hc => (List.mem_append.1 hc).elim (hb c) (h c)

/-- A call that failed is the last one, and its error is that of the run. -/
theorem Aborts.of_error {calls : List (Call ε)} {r : Except (Failure ε) α} (h : Aborts calls r)
    {c : Call ε} (hc : c ∈ calls) {e : ε} (he : c.outcome = .error e) :
    r = .error (.raised e) ∧ ∃ before, calls = before ++ [c] ∧ ∀ b ∈ before, b.Succeeds := by
  have hfail : ¬ c.Succeeds := fun ⟨m, hm⟩ => by rw [he] at hm; cases hm
  rcases r with (_ | d | _) | _
  · exact h.elim
  · obtain ⟨before, last, rfl, hlast, hbefore⟩ := h
    rcases List.mem_append.1 hc with hc | hc
    · exact absurd (hbefore c hc) hfail
    · obtain rfl := List.mem_singleton.1 hc
      rw [he] at hlast
      cases hlast
      exact ⟨rfl, before, rfl, hbefore⟩
  all_goals exact absurd (h c hc) hfail

/-- Recorded steps abort at their first failing call. -/
theorem reads_aborts : Reads fun (x : Recorder σ ε _) (_ : Run σ (Failure ε) _) =>
    ∀ s, Aborts (callsOf (x s).marks) (x s).result where
  value a s := fun c hc => by cases hc
  seq {_ _ x _ f _} hx hf s := by
    have hs := hx s
    cases h : (x s).result with
    | ok a =>
      rw [h] at hs
      rw [Recorder.bind_of_ok h, callsOf_append]
      exact (hf a _).prepend hs
    | error e =>
      rw [h] at hs
      rw [Recorder.bind_of_error h]
      rcases e with _ | _ | _ <;> exact hs
  note m x _ hm hx s := by
    rw [Recorder.note_bind, callsOf_cons_of_none hm]
    exact hx s
  under i x _ hx s := by
    have hs := hx s
    rwa [← callsOf_under i] at hs
  tooDeep s := fun c hc => by cases hc

theorem aborts_invoke (phase : Phase) (k : Kind) (f : Callback σ ε) (n : Node)
    (parent : Option Node) (s : σ) :
    Aborts (callsOf (Recorder.invoke phase k f n parent s).marks)
      (Recorder.invoke phase k f n parent s).result := by
  rw [Recorder.invoke_apply]
  cases h : (f n parent s).1 with
  | ok m => exact fun c hc => ⟨m, by rw [List.mem_singleton.1 hc]⟩
  | error e => exact ⟨[], _, rfl, rfl, fun b hb => by cases hb⟩

theorem aborts_record {v : Visitor σ ε} (hv : v.validate = .ok ()) (depth : Nat) (n : Node)
    (s : σ) : Aborts (callsOf (v.record depth n s).marks) (v.record depth n s).result := by
  exact reads_aborts.traverse (Reads.callbacks_self aborts_invoke v) rfl hv hv depth n s

/-! ## A fault at one call -/

/-- While fewer than `k` calls have been made, `R` relates the states of two visitors, and `w`
behaves like `v`, except that its `k`-th call fails with `e`. -/
structure FaultAt (R : Nat → σ → τ → Prop) (k : Nat) (e : ε) (v : Visitor σ ε) (w : Visitor τ ε) :
    Prop where
  /-- The visitor is valid. -/
  validate : w.validate = .ok ()
  /-- The visitors go equally far. -/
  descends : w.descends = v.descends
  /-- The visitors have the same callbacks, but for the fault. -/
  callbacks : ∀ phase kind, Option.Rel
    (fun f g => ∀ i s t n parent, R i s t →
      (i + 1 < k → (g n parent t).1 = (f n parent s).1 ∧
        R (i + 1) (f n parent s).2 (g n parent t).2) ∧
      (i + 1 = k → (g n parent t).1 = .error e))
    (v.callback? phase kind) (w.callback? phase kind)

/-- The callback that counts its calls with those of others, and fails at the `k`-th. -/
def failAt (k : Nat) (e : ε) (f : Callback σ ε) : Callback (σ × Nat) ε := fun n parent s =>
  if s.2 + 1 = k then (.error e, s)
  else ((f n parent s.1).1, ((f n parent s.1).2, s.2 + 1))

/-- The visitor with a fault at its `k`-th call. -/
def Visitor.withFault (v : Visitor σ ε) (k : Nat) (e : ε) : Visitor (σ × Nat) ε where
  hooks kind := ⟨(v.callback? .enter kind).map (failAt k e),
    (v.callback? .leave kind).map (failAt k e)⟩
  invalid := v.invalid
  descends := v.descends

theorem faultAt_withFault {v : Visitor σ ε} (hv : v.validate = .ok ()) (k : Nat) (e : ε) :
    FaultAt (fun i s t => t = (s, i)) k e v (v.withFault k e) where
  validate := hv
  descends := rfl
  callbacks phase kind := by
    have h : (v.withFault k e).callback? phase kind =
        (v.callback? phase kind).map (failAt k e) := by
      cases phase <;> rfl
    rw [h]
    cases v.callback? phase kind with
    | none => exact .none
    | some f =>
      refine .some fun i s t n parent ht => ⟨fun hi => ?_, fun hi => ?_⟩
      · rw [ht, failAt, if_neg (show i + 1 ≠ k by omega)]
        exact ⟨rfl, rfl⟩
      · rw [ht, failAt, if_pos hi]

/-- The call with another outcome. -/
def Call.failing (c : Call ε) (e : ε) : Call ε := { c with outcome := .error e }

/-- A run of `y` that follows `x` up to the `k`-th call of the whole run: after `i` earlier calls it
does what `x` does if the `k`-th call is yet to come, and ends with that call otherwise. -/
def CutAt (R : Nat → σ → τ → Prop) (k : Nat) (e : ε) (x : Recorder σ ε α)
    (y : Run (τ × List (Call ε)) (Failure ε) α) : Prop :=
  ∀ i s t log, i < k → R i s t →
    (i + (callsOf (x s).marks).length < k → ∃ t',
      R (i + (callsOf (x s).marks).length) (x s).state t' ∧
        y (t, log) = ((x s).result, (t', log ++ callsOf (x s).marks))) ∧
    (k ≤ i + (callsOf (x s).marks).length → ∃ t' before c,
      before ++ [c] <+: callsOf (x s).marks ∧ i + before.length + 1 = k ∧
        y (t, log) = (.error (.raised e), (t', log ++ (before ++ [c.failing e]))))

/-- What makes no call is done whole. -/
theorem cutAt_of_silent {R : Nat → σ → τ → Prop} {k : Nat} {e : ε} {x : Recorder σ ε α}
    {y : Run (τ × List (Call ε)) (Failure ε) α} (hcalls : ∀ s, callsOf (x s).marks = [])
    (hstate : ∀ s, (x s).state = s) (hy : ∀ s u, y u = ((x s).result, u)) : CutAt R k e x y := by
  intro i s t log hi hR
  rw [hcalls, hstate, List.length_nil]
  constructor
  · intro _
    exact ⟨t, hR, by rw [hy s, List.append_nil]⟩
  · intro hk
    omega

theorem CutAt.bind {β : Type} {R : Nat → σ → τ → Prop} {k : Nat} {e : ε} {x : Recorder σ ε α}
    {y : Run (τ × List (Call ε)) (Failure ε) α} {f : α → Recorder σ ε β}
    {g : α → Run (τ × List (Call ε)) (Failure ε) β} (hx : CutAt R k e x y)
    (hf : ∀ a, CutAt R k e (f a) (g a)) : CutAt R k e (x >>= f) (y >>= g) := by
  intro i s t log hi hR
  obtain ⟨hrun, hcut⟩ := hx i s t log hi hR
  cases h : (x s).result with
  | error d =>
    rw [Recorder.bind_of_error h]
    constructor
    · intro hk
      obtain ⟨t', hR', hy⟩ := hrun hk
      exact ⟨t', hR', Run.bind_of_error (hy.trans (by rw [h])) g⟩
    · intro hk
      obtain ⟨t', before, c, hpre, hlen, hy⟩ := hcut hk
      exact ⟨t', before, c, hpre, hlen, Run.bind_of_error hy g⟩
  | ok a =>
    rw [Recorder.bind_of_ok h]
    simp only [callsOf_append, List.length_append]
    -- The `k`-th call is either yet to come after the first half or one of its calls.
    by_cases hk : i + (callsOf (x s).marks).length < k
    · obtain ⟨t', hR', hy⟩ := hrun hk
      rw [Run.bind_of_ok (hy.trans (by rw [h])) g]
      obtain ⟨hrun', hcut'⟩ := hf a _ _ t' (log ++ callsOf (x s).marks) hk hR'
      constructor
      · intro hk'
        obtain ⟨u, hRu, hg⟩ := hrun' (by omega)
        exact ⟨u, by rwa [← Nat.add_assoc], by rw [hg, List.append_assoc]⟩
      · intro hk'
        obtain ⟨u, before, c, hpre, hlen, hg⟩ := hcut' (by omega)
        refine ⟨u, callsOf (x s).marks ++ before, c, ?_, ?_, ?_⟩
        · rw [List.append_assoc]
          exact (List.prefix_append_right_inj _).2 hpre
        · rw [List.length_append]
          omega
        · rw [hg]
          simp only [List.append_assoc]
    · obtain ⟨t', before, c, hpre, hlen, hy⟩ := hcut (by omega)
      refine ⟨fun hk' => by omega, fun _ => ⟨t', before, c, ?_, hlen, ?_⟩⟩
      · exact hpre.trans (List.prefix_append ..)
      · exact Run.bind_of_error hy g

theorem reads_cutAt (R : Nat → σ → τ → Prop) (k : Nat) (e : ε) :
    Reads fun (x : Recorder σ ε _) y => CutAt R k e x y where
  value _ := cutAt_of_silent (fun _ => rfl) (fun _ => rfl) fun _ _ => rfl
  seq hx hf := hx.bind hf
  note m x y hm hx i s t log hi hR := by
    rw [Recorder.note_bind, callsOf_cons_of_none hm]
    exact hx i s t log hi hR
  under j x y hx i s t log hi hR := by
    have h := hx i s t log hi hR
    rw [← callsOf_under j] at h
    exact h
  tooDeep := cutAt_of_silent (fun _ => rfl) (fun _ => rfl) fun _ _ => rfl

theorem cutAt_invoke {R : Nat → σ → τ → Prop} {k : Nat} {e : ε} {v : Visitor σ ε} {w : Visitor τ ε}
    (h : FaultAt R k e v w) :
    Reads.Callbacks (fun (x : Recorder σ ε _) y => CutAt R k e x y) v w.logged := by
  intro phase kind
  rw [Visitor.callback?_logged]
  have hcb := h.callbacks phase kind
  cases hv : v.callback? phase kind <;> cases hw : w.callback? phase kind <;> rw [hv, hw] at hcb
  · exact .none
  · cases hcb
  · cases hcb
  · rename_i f g
    cases hcb with
    | some hcb =>
      refine .some fun n parent i s t log hi hR => ?_
      obtain ⟨hrun, hcut⟩ := hcb i s t n parent hR
      rw [Recorder.invoke_apply, Run.lift_apply]
      constructor
      · intro hk
        obtain ⟨hout, hR'⟩ := hrun hk
        exact ⟨_, hR', by rw [logCalls_apply, hout]; rfl⟩
      · intro hk
        change k ≤ i + 1 at hk
        have hg := hcut (by omega)
        refine ⟨(g n parent t).2, [], _, List.prefix_rfl, by simp; omega, ?_⟩
        rw [logCalls_apply, hg]
        rfl

/-- **A walk fails exactly with the error of its last call, and a fault at the `k`-th call leaves
the calls before it as they were.** -/
theorem traverse_fails_at_last_call {v : Visitor σ ε} (hv : v.validate = .ok ()) (depth : Nat)
    (n : Node) (s : σ) :
    ∃ calls, v.MakesCalls depth n s calls ∧
    (∀ e, (v.traverse depth n s).1 = .error (.raised e) ↔ ∃ c ∈ calls, c.outcome = .error e) ∧
    (∀ d, (v.traverse depth n s).1 ≠ .error (.invalid d)) ∧
    (∀ c ∈ calls, ∀ e, c.outcome = .error e →
      ∃ before, calls = before ++ [c] ∧ ∀ b ∈ before, b.Succeeds) ∧
    ∀ (τ : Type) (w : Visitor τ ε) (R : Nat → σ → τ → Prop) (t : τ) (k : Nat) (e : ε),
      FaultAt R k e v w → R 0 s t → 1 ≤ k → k ≤ calls.length →
      (w.traverse depth n t).1 = .error (.raised e) ∧
        ∃ before c, before ++ [c] <+: calls ∧ before.length + 1 = k ∧
          w.MakesCalls depth n t (before ++ [c.failing e]) := by
  have h := aborts_record hv depth n s
  have hresult : (v.traverse depth n s).1 = (v.record depth n s).result := by
    rw [traverse_eq_record]
  refine ⟨callsOf (v.record depth n s).marks, makesCalls_record v depth n s, ?_⟩
  rw [hresult]
  refine ⟨?_, ?_, fun c hc e he => (h.of_error hc he).2, ?_⟩
  · intro e
    constructor
    · intro he
      rw [he] at h
      obtain ⟨before, c, hcalls, hc, -⟩ := h
      exact ⟨c, by simp [hcalls], hc⟩
    · rintro ⟨c, hc, he⟩
      exact (h.of_error hc he).1
  · intro d hd
    rw [hd] at h
    exact h
  · -- The other visitor is run with a log of its calls, which is cut off at the `k`-th.
    intro τ w R t k e hw hR hpos hk
    have hcut : CutAt R k e (v.record depth n) (w.logged.traverse depth n) :=
      (reads_cutAt R k e).traverse (cutAt_invoke hw) hw.descends hv hw.validate depth n
    obtain ⟨t', before, c, hpre, hlen, hrun⟩ := (hcut 0 s t [] hpos hR).2 (by omega)
    have hcalls := makesCalls_record w depth n t
    rw [hcalls []] at hrun
    have heq : callsOf (w.record depth n t).marks = before ++ [c.failing e] :=
      congrArg (fun r => r.2.2) hrun
    exact ⟨congrArg Prod.fst hrun, before, c, hpre, by omega, heq ▸ hcalls⟩

/-- The visitor that counts its calls. -/
def countCalls : Visitor Nat String where
  hooks _ := ⟨some fun n _ count => (.ok n, count + 1), some fun n _ count => (.ok n, count + 1)⟩

/-- In a paragraph with one text, the second call is made for the text. -/
theorem traverse_fault_at_text :
    countCalls.validate = .ok () ∧
      FaultAt (fun i s t => t = (s, i)) 2 "stop" countCalls (countCalls.withFault 2 "stop") ∧
      ((countCalls.withFault 2 "stop").traverse 2 (.ofTag "p" [.ofText "a"]) (0, 0)).1 =
        .error (.raised "stop") := by
  have hfault := faultAt_withFault (v := countCalls) rfl 2 "stop"
  obtain ⟨calls, hcalls, -, -, -, h⟩ :=
    traverse_fails_at_last_call (v := countCalls) rfl 2 (.ofTag "p" [.ofText "a"]) 0
  have hlen : calls.length = 4 := by
    have hrun := hcalls []
    exact (congrArg (fun r => r.2.2.length) hrun).symm
  exact ⟨rfl, hfault, (h _ _ _ (0, 0) 2 "stop" hfault rfl (by decide) (by omega)).1⟩

end HtmlWalk
