import Mathlib.Data.Option.Basic
import HtmlWalk.Proofs.Walk.Basic

/-!
# The record of a walk

A walk shows its result and its final state, but not what happened on the way. Here a walk is run
a second time by a *recorder*, which notes where each sweep begins and ends and every call of a
callback, each at its position. A position is the list of the places of the children on the way
down from the root; a record is relative to the node at which it starts, so that the record of a
child is the record of a walk of its own, moved below its parent (`Mark.under`).

**The record is that of the walk** (`traverse_eq_record`, `makesCalls_record`). Forgetting the marks
gives back `Visitor.traverse`, and the calls in the record are those that a visitor makes when each
of its callbacks also writes its own calls into the state.

Both are cases of one statement (`Reads.walk`): a relation between recorders and runs that is kept
by the steps of which a walk is made holds of whole walks.
-/

namespace HtmlWalk

/-! ## Places -/

/-- A place in a tree: the places of the children on the way down from the root. -/
abbrev Position := List Nat

/-- The node at a place, if the tree has the place. -/
def Node.at? : Node → Position → Option Node
  | n, [] => some n
  | n, i :: p => n.children[i]?.bind (·.at? p)

/-- Places below children are alike if the children are, and there are as many. -/
theorem Node.map_at?_cons {γ : Type} {f : Node → γ} {a b : Node} {i : Nat} {p : Position}
    (hlen : b.children.length = a.children.length)
    (h : ∀ c d, a.children[i]? = some c → b.children[i]? = some d →
      (d.at? p).map f = (c.at? p).map f) :
    (b.at? (i :: p)).map f = (a.at? (i :: p)).map f := by
  rw [at?, at?]
  rcases Nat.lt_or_ge i a.children.length with hi | hi
  · have hc := List.getElem?_eq_getElem hi
    have hd := List.getElem?_eq_getElem (hlen ▸ hi)
    rw [hc, hd]
    exact h _ _ hc hd
  · rw [List.getElem?_eq_none hi, List.getElem?_eq_none (hlen ▸ hi)]

/-! ## Marks -/

/-- A call of a callback. -/
structure Call (ε : Type) where
  /-- The side on which the callback runs. -/
  phase : Phase
  /-- The kind for which it is registered. -/
  kind : Kind
  /-- The node that it is given. -/
  node : Node
  /-- The parent that it is given. -/
  parent : Option Node
  /-- What it returns. -/
  outcome : Except ε Node

/-- What is noted of a walk. -/
inductive Mark (ε : Type)
  /-- A sweep begins with a node, under a parent. -/
  | begins (pos : Position) (phase : Phase) (parent : Option Node) (n : Node)
  /-- A callback is called. -/
  | calls (pos : Position) (c : Call ε)
  /-- A sweep ends with a node. -/
  | ends (pos : Position) (phase : Phase) (n : Node)

namespace Mark

variable {ε : Type}

/-- Where the mark is. -/
def pos : Mark ε → Position
  | begins p _ _ _ | calls p _ | ends p _ _ => p

/-- On which side of the children the mark is. -/
def phase : Mark ε → Phase
  | begins _ side _ _ | ends _ side _ => side
  | calls _ c => c.phase

/-- The call, if the mark is one. -/
def call? : Mark ε → Option (Call ε)
  | calls _ c => some c
  | begins .. | ends .. => none

/-- The mark as seen from the parent of the node to which its position is relative. -/
def under (i : Nat) : Mark ε → Mark ε
  | begins p side parent n => begins (i :: p) side parent n
  | calls p c => calls (i :: p) c
  | ends p side n => ends (i :: p) side n

@[simp] theorem pos_under (i : Nat) (m : Mark ε) : (m.under i).pos = i :: m.pos := by
  cases m <;> rfl

@[simp] theorem phase_under (i : Nat) (m : Mark ε) : (m.under i).phase = m.phase := by
  cases m <;> rfl

@[simp] theorem call?_under (i : Nat) (m : Mark ε) : (m.under i).call? = m.call? := by
  cases m <;> rfl

theorem exists_under {x : Mark ε} {i : Nat} {p : Position} (h : x.pos = i :: p) :
    ∃ y : Mark ε, x = y.under i := by
  cases x with
  | begins q side parent n => cases h; exact ⟨.begins p side parent n, rfl⟩
  | calls q c => cases h; exact ⟨.calls p c, rfl⟩
  | ends q side n => cases h; exact ⟨.ends p side n, rfl⟩

theorem under_inj {i j : Nat} {x y : Mark ε} : x.under i = y.under j ↔ i = j ∧ x = y := by
  cases x <;> cases y <;> simp [under, and_assoc]

end Mark

/-- The calls among marks, in order. -/
def callsOf {ε : Type} (marks : List (Mark ε)) : List (Call ε) := marks.filterMap Mark.call?

@[simp] theorem callsOf_append {ε : Type} (xs ys : List (Mark ε)) :
    callsOf (xs ++ ys) = callsOf xs ++ callsOf ys := List.filterMap_append

@[simp] theorem callsOf_under {ε : Type} (i : Nat) (xs : List (Mark ε)) :
    callsOf (xs.map (Mark.under i)) = callsOf xs := by
  simp only [callsOf, List.filterMap_map, Function.comp_def, Mark.call?_under]

theorem callsOf_cons_of_none {ε : Type} {m : Mark ε} (hm : m.call? = none) (xs : List (Mark ε)) :
    callsOf (m :: xs) = callsOf xs := List.filterMap_cons_none hm

/-! ## Recorders -/

/-- What is left of a run: its marks, its result and the state. -/
structure Record (σ ε α : Type) where
  /-- The marks, in order. -/
  marks : List (Mark ε)
  /-- The result. -/
  result : Except (Failure ε) α
  /-- The state at the end. -/
  state : σ

/-- A run that leaves a record. -/
def Recorder (σ ε α : Type) : Type := σ → Record σ ε α

namespace Recorder

variable {σ ε α β : Type}

instance : Monad (Recorder σ ε) where
  pure a s := ⟨[], .ok a, s⟩
  bind x f s :=
    match (x s).result with
    | .ok a =>
      ⟨(x s).marks ++ (f a (x s).state).marks, (f a (x s).state).result, (f a (x s).state).state⟩
    | .error e => ⟨(x s).marks, .error e, (x s).state⟩

/-- Note something. -/
def note (m : Mark ε) : Recorder σ ε Unit := fun s => ⟨[m], .ok (), s⟩

/-- Fail. -/
def fail (e : Failure ε) : Recorder σ ε α := fun s => ⟨[], .error e, s⟩

/-- Call a callback, and note the call. -/
def invoke (phase : Phase) (k : Kind) (f : Callback σ ε) (n : Node) (parent : Option Node) :
    Recorder σ ε Node := fun s =>
  match f n parent s with
  | (outcome, s) => ⟨[.calls [] ⟨phase, k, n, parent, outcome⟩], outcome.mapError .raised, s⟩

/-- The same run, recorded from the parent of the node at which it starts. -/
def under (i : Nat) (x : Recorder σ ε α) : Recorder σ ε α := fun s =>
  { x s with marks := (x s).marks.map (Mark.under i) }

theorem pure_apply (a : α) (s : σ) : (pure a : Recorder σ ε α) s = ⟨[], .ok a, s⟩ := rfl

theorem bind_of_ok {x : Recorder σ ε α} {s : σ} {a : α} (h : (x s).result = .ok a)
    (f : α → Recorder σ ε β) :
    (x >>= f) s = ⟨(x s).marks ++ (f a (x s).state).marks, (f a (x s).state).result,
      (f a (x s).state).state⟩ := by
  show (match (x s).result with | .ok a => _ | .error e => _) = _
  rw [h]

theorem bind_of_error {x : Recorder σ ε α} {s : σ} {e : Failure ε} (h : (x s).result = .error e)
    (f : α → Recorder σ ε β) : (x >>= f) s = ⟨(x s).marks, .error e, (x s).state⟩ := by
  show (match (x s).result with | .ok a => _ | .error e => _) = _
  rw [h]

theorem note_bind (m : Mark ε) (x : Recorder σ ε α) (s : σ) :
    (note m >>= fun _ => x) s = { x s with marks := m :: (x s).marks } := rfl

theorem result_bind_eq_ok {x : Recorder σ ε α} {f : α → Recorder σ ε β} {s : σ} {b : β} :
    ((x >>= f) s).result = .ok b ↔
      ∃ a, (x s).result = .ok a ∧ (f a (x s).state).result = .ok b := by
  cases h : (x s).result with
  | ok a => simp [bind_of_ok h]
  | error e => simp [bind_of_error h]

end Recorder

/-! ## Recording a walk -/

namespace Visitor

variable {σ ε : Type}

/-- Run the callback for a kind on one side, if the node is of that kind, and note the call. -/
def recordDispatch (v : Visitor σ ε) (phase : Phase) (parent : Option Node) (n : Node) (k : Kind) :
    Recorder σ ε Node :=
  if k.matchesNode n then
    match v.callback? phase k with
    | some f => Recorder.invoke phase k f n (if k.hasParent then parent else none)
    | none => pure n
  else pure n

/-- Try all kinds in the order of one side, between two marks. -/
def recordSweep (v : Visitor σ ε) (phase : Phase) (parent : Option Node) (n : Node) :
    Recorder σ ε Node := do
  Recorder.note (.begins [] phase parent n)
  let n ← phase.order.foldlM (v.recordDispatch phase parent) n
  Recorder.note (.ends [] phase n)
  return n

/-- Visit children one after the other, each below its place. -/
def recordChildren (visit : Node → Node → Recorder σ ε Node) (n : Node) :
    List Node → List Node → Recorder σ ε (List Node)
  | done, [] => pure done
  | done, c :: rest => do
    let c ← (visit (n.withChildren (done ++ placeholder :: rest)) c).under done.length
    recordChildren visit n (done ++ [c]) rest

/-- The part of a walk between the two sweeps, given how children are visited. -/
def recordBelow (v : Visitor σ ε) (visit : Node → Node → Recorder σ ε Node) (n : Node) :
    Recorder σ ε Node := do
  if v.descends then
    let cs ← recordChildren visit n [] n.children
    return n.withChildren cs
  else return n

/-- Walk a tree that is no deeper than `depth` levels at any time, and record the walk. -/
def recordWalk (v : Visitor σ ε) : Nat → Option Node → Node → Recorder σ ε Node
  | 0, _, _ => Recorder.fail .tooDeep
  | depth + 1, parent, n => do
    let n ← v.recordSweep .enter parent n
    let n ← v.recordBelow (fun parent c => recordWalk v depth (some parent) c) n
    v.recordSweep .leave parent n

/-- Walk a tree with a visitor, after the visitor has been validated, and record the walk. -/
def record (v : Visitor σ ε) (depth : Nat) (n : Node) : Recorder σ ε Node :=
  match v.validate with
  | .ok () => v.recordWalk depth none n
  | .error e => Recorder.fail (.invalid e)

theorem record_of_valid {v : Visitor σ ε} (hv : v.validate = .ok ()) (depth : Nat) (n : Node) :
    v.record depth n = v.recordWalk depth none n := by
  simp only [record, hv]

theorem record_of_invalid {v : Visitor σ ε} {e : InvalidEntry} (hv : v.validate = .error e)
    (depth : Nat) (n : Node) : v.record depth n = Recorder.fail (.invalid e) := by
  simp only [record, hv]

end Visitor

/-! ## Reading a record -/

variable {σ τ ε : Type}

/-- A relation between recorders and runs that the steps of a walk keep. -/
structure Reads (R : ∀ {α : Type}, Recorder σ ε α → Run τ (Failure ε) α → Prop) : Prop where
  value {α : Type} (a : α) : R (pure a) (pure a)
  seq {α β : Type} {x : Recorder σ ε α} {y : Run τ (Failure ε) α} {f : α → Recorder σ ε β}
    {g : α → Run τ (Failure ε) β} : R x y → (∀ a, R (f a) (g a)) → R (x >>= f) (y >>= g)
  note {α : Type} (m : Mark ε) {x : Recorder σ ε α} {y : Run τ (Failure ε) α} :
    m.call? = none → R x y → R (Recorder.note m >>= fun _ => x) y
  under {α : Type} (i : Nat) {x : Recorder σ ε α} {y : Run τ (Failure ε) α} :
    R x y → R (x.under i) y
  tooDeep {α : Type} : R (Recorder.fail .tooDeep : Recorder σ ε α) (throw .tooDeep)

namespace Reads

variable {R : ∀ {α : Type}, Recorder σ ε α → Run τ (Failure ε) α → Prop}
  {v : Visitor σ ε} {w : Visitor τ ε}

/-- The callbacks of two visitors are related when calling them is. -/
def Callbacks (R : ∀ {α : Type}, Recorder σ ε α → Run τ (Failure ε) α → Prop) (v : Visitor σ ε)
    (w : Visitor τ ε) : Prop :=
  ∀ phase k, Option.Rel
    (fun f g => ∀ n parent, R (Recorder.invoke phase k f n parent) (Run.lift (g n parent)))
    (v.callback? phase k) (w.callback? phase k)

theorem callbacks_self {R : ∀ {α : Type}, Recorder σ ε α → Run σ (Failure ε) α → Prop}
    (h : ∀ phase k (f : Callback σ ε) n parent,
      R (Recorder.invoke phase k f n parent) (Run.lift (f n parent))) (v : Visitor σ ε) :
    Callbacks R v v := by
  intro phase k
  cases v.callback? phase k with
  | none => exact .none
  | some f => exact .some (h phase k f)

theorem dispatch (hR : Reads R) (hcb : Callbacks R v w) (phase : Phase) (parent : Option Node)
    (n : Node) (k : Kind) :
    R (v.recordDispatch phase parent n k) (w.dispatch phase parent n k) := by
  unfold Visitor.recordDispatch Visitor.dispatch
  by_cases hk : k.matchesNode n = true
  · rw [if_pos hk, if_pos hk]
    cases hv : v.callback? phase k <;> cases hw : w.callback? phase k <;>
      have h := hcb phase k <;> rw [hv, hw] at h
    · exact hR.value n
    · cases h
    · cases h
    · cases h with
      | some h => exact h n _
  · rw [if_neg hk, if_neg hk]
    exact hR.value n

theorem foldlM_dispatch (hR : Reads R) (hcb : Callbacks R v w) (phase : Phase)
    (parent : Option Node) (ks : List Kind) (n : Node) :
    R (ks.foldlM (v.recordDispatch phase parent) n) (ks.foldlM (w.dispatch phase parent) n) := by
  induction ks generalizing n with
  | nil => exact hR.value n
  | cons k ks ih =>
    rw [List.foldlM_cons, List.foldlM_cons]
    exact hR.seq (hR.dispatch hcb phase parent n k) ih

theorem sweep (hR : Reads R) (hcb : Callbacks R v w) (phase : Phase) (parent : Option Node)
    (n : Node) : R (v.recordSweep phase parent n) (w.sweep phase parent n) := by
  have h : R (phase.order.foldlM (v.recordDispatch phase parent) n >>= fun m =>
      Recorder.note (.ends [] phase m) >>= fun _ => pure m)
      (w.sweep phase parent n >>= fun m => pure m) :=
    hR.seq (hR.foldlM_dispatch hcb phase parent phase.order n) fun m =>
      hR.note _ rfl (hR.value m)
  rw [bind_pure] at h
  exact hR.note _ rfl h

theorem children (hR : Reads R) {visit : Node → Node → Recorder σ ε Node}
    {visit' : Node → Node → Run τ (Failure ε) Node} (h : ∀ p c, R (visit p c) (visit' p c))
    (n : Node) (done rest : List Node) :
    R (Visitor.recordChildren visit n done rest) (Visitor.visitChildren visit' n done rest) := by
  induction rest generalizing done with
  | nil => exact hR.value done
  | cons c rest ih => exact hR.seq (hR.under _ (h _ _)) fun r => ih (done ++ [r])

theorem below (hR : Reads R) (hd : w.descends = v.descends)
    {visit : Node → Node → Recorder σ ε Node} {visit' : Node → Node → Run τ (Failure ε) Node}
    (h : ∀ p c, R (visit p c) (visit' p c)) (n : Node) :
    R (v.recordBelow visit n) (w.below visit' n) := by
  rw [Visitor.recordBelow, Visitor.below, hd]
  by_cases hv : v.descends = true
  · rw [if_pos hv, if_pos hv, map_eq_pure_bind]
    exact hR.seq (hR.children h n [] n.children) fun cs => hR.value _
  · rw [if_neg hv, if_neg hv]
    exact hR.value n

/-- A relation that the steps of a walk keep holds of whole walks. -/
theorem walk (hR : Reads R) (hcb : Callbacks R v w) (hd : w.descends = v.descends) (depth : Nat)
    (parent : Option Node) (n : Node) :
    R (v.recordWalk depth parent n) (w.walk depth parent n) := by
  induction depth generalizing parent n with
  | zero => exact hR.tooDeep
  | succ depth ih =>
    rw [Visitor.walk_succ]
    exact hR.seq (hR.sweep hcb .enter parent n) fun m =>
      hR.seq (hR.below hd (fun p c => ih (some p) c) m) fun m => hR.sweep hcb .leave parent m

theorem traverse (hR : Reads R) (hcb : Callbacks R v w) (hd : w.descends = v.descends)
    (hv : v.validate = .ok ()) (hw : w.validate = .ok ()) (depth : Nat) (n : Node) :
    R (v.record depth n) (w.traverse depth n) := by
  rw [Visitor.record_of_valid hv, Visitor.traverse_of_valid hw]
  exact hR.walk hcb hd depth none n

end Reads

/-! ## The record is that of the walk -/

theorem Run.lift_apply {α : Type} (r : Run σ ε α) (s : σ) :
    Run.lift r s = ((r s).1.mapError .raised, (r s).2) := by
  unfold Run.lift
  rcases r s with ⟨_ | _, _⟩ <;> rfl

theorem Recorder.invoke_apply (phase : Phase) (k : Kind) (f : Callback σ ε) (n : Node)
    (parent : Option Node) (s : σ) :
    Recorder.invoke phase k f n parent s =
      ⟨[.calls [] ⟨phase, k, n, parent, (f n parent s).1⟩], (f n parent s).1.mapError .raised,
        (f n parent s).2⟩ := rfl

/-- A recorder is read by forgetting its marks. -/
theorem reads_forget : Reads fun (x : Recorder σ ε _) (y : Run σ (Failure ε) _) =>
    ∀ s, y s = ((x s).result, (x s).state) where
  value _ _ := rfl
  seq {_ _ x y f g} hx hf s := by
    cases h : (x s).result with
    | ok a =>
      rw [Recorder.bind_of_ok h, Run.bind_of_ok ((hx s).trans (by rw [h])), hf]
    | error e =>
      rw [Recorder.bind_of_error h, Run.bind_of_error ((hx s).trans (by rw [h]))]
  note _ _ _ _ hx s := hx s
  under _ _ _ hx s := hx s
  tooDeep _ := rfl

theorem walk_eq_recordWalk (v : Visitor σ ε) (depth : Nat) (parent : Option Node) (n : Node)
    (s : σ) : v.walk depth parent n s =
      ((v.recordWalk depth parent n s).result, (v.recordWalk depth parent n s).state) := by
  refine reads_forget.walk (Reads.callbacks_self ?_ v) rfl depth parent n s
  intro phase k f n parent s
  exact Run.lift_apply (f n parent) s

/-- **The record of a walk has its result and its final state.** -/
theorem traverse_eq_record (v : Visitor σ ε) (depth : Nat) (n : Node) (s : σ) :
    v.traverse depth n s = ((v.record depth n s).result, (v.record depth n s).state) := by
  cases hv : v.validate with
  | error e => rw [Visitor.traverse_of_invalid hv, Visitor.record_of_invalid hv]; rfl
  | ok u =>
    rw [Visitor.traverse_of_valid hv, Visitor.record_of_valid hv]
    exact walk_eq_recordWalk v depth none n s

/-- The callback that also writes each of its calls into the state. -/
def logCalls (phase : Phase) (k : Kind) (f : Callback σ ε) : Callback (σ × List (Call ε)) ε :=
  fun n parent s =>
    match f n parent s.1 with
    | (outcome, t) => (outcome, (t, s.2 ++ [⟨phase, k, n, parent, outcome⟩]))

theorem logCalls_apply (phase : Phase) (k : Kind) (f : Callback σ ε) (n : Node)
    (parent : Option Node) (s : σ) (log : List (Call ε)) :
    logCalls phase k f n parent (s, log) = ((f n parent s).1,
      ((f n parent s).2, log ++ [⟨phase, k, n, parent, (f n parent s).1⟩])) := rfl

/-- The visitor whose callbacks also write their calls into the state. -/
def Visitor.logged (v : Visitor σ ε) : Visitor (σ × List (Call ε)) ε where
  hooks k := ⟨(v.callback? .enter k).map (logCalls .enter k),
    (v.callback? .leave k).map (logCalls .leave k)⟩
  invalid := v.invalid
  descends := v.descends

theorem Visitor.callback?_logged (v : Visitor σ ε) (phase : Phase) (k : Kind) :
    v.logged.callback? phase k = (v.callback? phase k).map (logCalls phase k) := by
  cases phase <;> rfl

/-- A recorder is read by its calls when the run adds them to a log. -/
theorem reads_logged : Reads fun (x : Recorder σ ε _) (y : Run (σ × List (Call ε)) (Failure ε) _) =>
    ∀ s log, y (s, log) = ((x s).result, ((x s).state, log ++ callsOf (x s).marks)) where
  value a s log := by simp [Recorder.pure_apply, Run.pure_apply, callsOf]
  seq {_ _ x y f g} hx hf s log := by
    cases h : (x s).result with
    | ok a =>
      rw [Recorder.bind_of_ok h, Run.bind_of_ok ((hx s log).trans (by rw [h])), hf, callsOf_append,
        List.append_assoc]
    | error e =>
      rw [Recorder.bind_of_error h, Run.bind_of_error ((hx s log).trans (by rw [h]))]
  note m x y hm hx s log := by
    rw [hx, Recorder.note_bind, callsOf_cons_of_none hm]
  under i x y hx s log := by
    rw [hx]
    simp [Recorder.under]
  tooDeep s log := by simp [Recorder.fail, Run.throw_apply, callsOf]

/-- These are the calls of a walk: callbacks that write their calls into the state write them, in
that order, and leave all else as it is. -/
def Visitor.MakesCalls (v : Visitor σ ε) (depth : Nat) (n : Node) (s : σ) (calls : List (Call ε)) :
    Prop :=
  ∀ log, v.logged.traverse depth n (s, log) =
    ((v.traverse depth n s).1, ((v.traverse depth n s).2, log ++ calls))

/-- **The record of a walk has its calls.** -/
theorem makesCalls_record (v : Visitor σ ε) (depth : Nat) (n : Node) (s : σ) :
    v.MakesCalls depth n s (callsOf (v.record depth n s).marks) := by
  intro log
  rw [traverse_eq_record v]
  cases hv : v.validate with
  | error e =>
    rw [Visitor.record_of_invalid hv, Visitor.traverse_of_invalid (v := v.logged) hv]
    simp [Recorder.fail, Run.throw_apply, callsOf]
  | ok u =>
    refine reads_logged.traverse (v := v) (w := v.logged) (fun phase k => ?_) rfl hv hv depth n s
      log
    rw [Visitor.callback?_logged]
    cases v.callback? phase k with
    | none => exact .none
    | some f =>
      refine .some fun n parent s log => ?_
      rw [Run.lift_apply, Recorder.invoke_apply]
      rfl

end HtmlWalk
