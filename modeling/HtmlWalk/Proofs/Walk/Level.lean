import Mathlib.Data.List.Forall2
import Mathlib.Tactic.Set
import HtmlWalk.Proofs.Walk.Record

/-!
# One level of a record

What the marks of a walk are, level by level. A sweep leaves a mark at its beginning, one for each
call, and one at its end if it gets there (`recordSweep_marks`). The loop over the children leaves
the marks of one visit after the other, each below its place, and each visit sees the results of
the earlier ones (`recordChildren_visits`). A walk is a sweep, such a loop, and a sweep, and it may
stop at any point of them (`recordWalk_marks`, `recordWalk_of_ok`).
-/

namespace HtmlWalk

variable {σ ε : Type}

/-! ## Sweeps -/

/-- The argument that a callback gets for the parent. -/
def parentFor (k : Kind) (parent : Option Node) : Option Node :=
  if k.hasParent then parent else none

/-- The calls that can be made at one place under one parent. -/
def Call.At (phase : Phase) (parent : Option Node) (c : Call ε) : Prop :=
  c.phase = phase ∧ c.parent = parentFor c.kind parent

theorem recordDispatch_marks (v : Visitor σ ε) (phase : Phase) (parent : Option Node) (n : Node)
    (k : Kind) (s : σ) : ∃ cs : List (Call ε), (∀ c ∈ cs, c.At phase parent) ∧
      (v.recordDispatch phase parent n k s).marks = cs.map (.calls []) := by
  unfold Visitor.recordDispatch
  by_cases hk : k.matchesNode n = true
  · rw [if_pos hk]
    cases v.callback? phase k with
    | none => exact ⟨[], by simp, rfl⟩
    | some f =>
      refine ⟨[⟨phase, k, n, parentFor k parent, (f n (parentFor k parent) s).1⟩], ?_, rfl⟩
      intro c hc
      rw [List.mem_singleton.1 hc]
      exact ⟨rfl, rfl⟩
  · rw [if_neg hk]
    exact ⟨[], by simp, rfl⟩

theorem foldlM_recordDispatch_marks (v : Visitor σ ε) (phase : Phase) (parent : Option Node)
    (ks : List Kind) (n : Node) (s : σ) : ∃ cs : List (Call ε), (∀ c ∈ cs, c.At phase parent) ∧
      (ks.foldlM (v.recordDispatch phase parent) n s).marks = cs.map (.calls []) := by
  induction ks generalizing n s with
  | nil => exact ⟨[], by simp, rfl⟩
  | cons k ks ih =>
    rw [List.foldlM_cons]
    obtain ⟨cs, hcs, hmarks⟩ := recordDispatch_marks v phase parent n k s
    cases h : (v.recordDispatch phase parent n k s).result with
    | error e =>
      rw [Recorder.bind_of_error h]
      exact ⟨cs, hcs, hmarks⟩
    | ok m =>
      rw [Recorder.bind_of_ok h]
      obtain ⟨ds, hds, hrest⟩ := ih m (v.recordDispatch phase parent n k s).state
      refine ⟨cs ++ ds, fun c hc => (List.mem_append.1 hc).elim (hcs c) (hds c), ?_⟩
      rw [hmarks, hrest, List.map_append]

/-- A sweep is what it tries, between two marks. -/
theorem recordSweep_apply (v : Visitor σ ε) (phase : Phase) (parent : Option Node) (n : Node)
    (s : σ) : v.recordSweep phase parent n s =
      let tried := phase.order.foldlM (v.recordDispatch phase parent) n s
      { tried with
        marks := .begins [] phase parent n ::
          (tried.marks ++ tried.result.toOption.toList.map (.ends [] phase)) } := by
  unfold Visitor.recordSweep
  rw [Recorder.note_bind]
  generalize phase.order.foldlM (v.recordDispatch phase parent) n = x
  cases h : (x s).result with
  | error e =>
    rw [Recorder.bind_of_error h]
    simp [h, Except.toOption]
  | ok m =>
    rw [Recorder.bind_of_ok h]
    simp [h, Except.toOption, Recorder.note_bind, Recorder.pure_apply]

/-- The marks of a sweep: its beginning, its calls, and its end if it gets there. -/
theorem recordSweep_marks (v : Visitor σ ε) (phase : Phase) (parent : Option Node) (n : Node)
    (s : σ) : ∃ cs : List (Call ε), (∀ c ∈ cs, c.At phase parent) ∧
      (v.recordSweep phase parent n s).marks = .begins [] phase parent n ::
        (cs.map (.calls []) ++
          (v.recordSweep phase parent n s).result.toOption.toList.map (.ends [] phase)) := by
  obtain ⟨cs, hcs, hmarks⟩ := foldlM_recordDispatch_marks v phase parent phase.order n s
  refine ⟨cs, hcs, ?_⟩
  rw [recordSweep_apply]
  dsimp only
  rw [hmarks]

section Sweep

variable {v : Visitor σ ε} {phase side : Phase} {parent p : Option Node} {n m : Node} {s : σ}
  {pos : Position} {c : Call ε}

theorem mem_recordSweep {x : Mark ε} (h : x ∈ (v.recordSweep phase parent n s).marks) :
    x.pos = [] ∧ x.phase = phase := by
  obtain ⟨cs, hcs, hmarks⟩ := recordSweep_marks v phase parent n s
  rw [hmarks] at h
  simp only [List.mem_cons, List.mem_append, List.mem_map] at h
  rcases h with rfl | ⟨c, hc, rfl⟩ | ⟨m, -, rfl⟩
  · exact ⟨rfl, rfl⟩
  · exact ⟨rfl, (hcs c hc).1⟩
  · exact ⟨rfl, rfl⟩

theorem begins_mem_recordSweep :
    Mark.begins pos side p m ∈ (v.recordSweep phase parent n s).marks ↔
      pos = [] ∧ side = phase ∧ p = parent ∧ m = n := by
  obtain ⟨cs, -, hmarks⟩ := recordSweep_marks v phase parent n s
  rw [hmarks]
  simp

theorem ends_mem_recordSweep :
    Mark.ends pos side m ∈ (v.recordSweep phase parent n s).marks ↔
      pos = [] ∧ side = phase ∧ (v.recordSweep phase parent n s).result = .ok m := by
  obtain ⟨cs, -, hmarks⟩ := recordSweep_marks v phase parent n s
  rw [hmarks]
  cases (v.recordSweep phase parent n s).result <;> simp [Except.toOption, eq_comm, and_left_comm]

theorem calls_mem_recordSweep (h : Mark.calls pos c ∈ (v.recordSweep phase parent n s).marks) :
    pos = [] ∧ c.At phase parent := by
  obtain ⟨cs, hcs, hmarks⟩ := recordSweep_marks v phase parent n s
  rw [hmarks] at h
  simp only [List.mem_cons, reduceCtorEq, List.mem_append, List.mem_map, Mark.calls.injEq,
    and_false, exists_false, or_false, false_or] at h
  obtain ⟨d, hd, rfl, rfl⟩ := h
  exact ⟨rfl, hcs _ hd⟩

end Sweep

/-! ## The loop over the children -/

/-- The marks of visits one after the other, each below its place. -/
def gather : Nat → List (List (Mark ε)) → List (Mark ε)
  | _, [] => []
  | i, E :: Es => E.map (Mark.under i) ++ gather (i + 1) Es

theorem mem_gather {i : Nat} {Es : List (List (Mark ε))} {x : Mark ε} :
    x ∈ gather i Es ↔
      ∃ (j : Nat) (E : List (Mark ε)) (y : Mark ε),
        Es[j]? = some E ∧ y ∈ E ∧ x = y.under (i + j) := by
  induction Es generalizing i with
  | nil => simp [gather]
  | cons E Es ih =>
    rw [gather, List.mem_append, List.mem_map, ih]
    constructor
    · rintro (⟨y, hy, rfl⟩ | ⟨j, F, y, hF, hy, rfl⟩)
      · exact ⟨0, E, y, rfl, hy, rfl⟩
      · exact ⟨j + 1, F, y, hF, hy, by rw [Nat.add_right_comm, Nat.add_assoc]⟩
    · rintro ⟨_ | j, F, y, hF, hy, rfl⟩
      · cases hF
        exact .inl ⟨y, hy, rfl⟩
      · exact .inr ⟨j, F, y, hF, hy, by rw [Nat.add_right_comm, Nat.add_assoc]⟩

theorem under_mem_gather {j : Nat} {Es : List (List (Mark ε))} {y : Mark ε} :
    y.under j ∈ gather 0 Es ↔ ∃ E, Es[j]? = some E ∧ y ∈ E := by
  rw [mem_gather]
  constructor
  · rintro ⟨k, E, z, hE, hz, h⟩
    obtain ⟨rfl, rfl⟩ := Mark.under_inj.1 h
    rw [Nat.zero_add]
    exact ⟨E, hE, hz⟩
  · rintro ⟨E, hE, hy⟩
    exact ⟨j, E, y, hE, hy, by rw [Nat.zero_add]⟩

theorem pos_ne_nil_of_mem_gather {i : Nat} {Es : List (List (Mark ε))} {x : Mark ε}
    (h : x ∈ gather i Es) : x.pos ≠ [] := by
  obtain ⟨j, E, y, -, -, rfl⟩ := mem_gather.1 h
  simp

/-- The visits to the children `rest` of a node, of which some are done: their records, and the
results of those that succeeded. Each visit sees the results of all earlier ones. -/
structure Visits (visit : Node → Node → Recorder σ ε Node) (n : Node) (done rest : List Node)
    (records : List (Record σ ε Node)) (results : List Node) : Prop where
  /-- There is at most one visit to each child. -/
  length_le : records.length ≤ rest.length
  /-- Each visit is to the child at its place, after all earlier visits have succeeded. -/
  visit : ∀ (j : Nat) (r : Record σ ε Node), records[j]? = some r →
    j ≤ results.length ∧ ∃ c t, rest[j]? = some c ∧
      r = visit (n.withChildren (done ++ results.take j ++ placeholder :: rest.drop (j + 1))) c t
  /-- The results are those of the visits. -/
  result : ∀ (j : Nat) (m : Node), results[j]? = some m →
    ∃ r : Record σ ε Node, records[j]? = some r ∧ r.result = .ok m

namespace Visits

variable {visit : Node → Node → Recorder σ ε Node} {n c m : Node} {done rest results : List Node}
  {r : Record σ ε Node} {records : List (Record σ ε Node)} {s : σ}

theorem nil (visit : Node → Node → Recorder σ ε Node) (n : Node) (done rest : List Node) :
    Visits visit n done rest [] [] where
  length_le := Nat.zero_le _
  visit j r hr := by cases hr
  result j m hm := by cases hm

/-- The first visit, after which there is none if it fails. -/
theorem first (hr : r = visit (n.withChildren (done ++ placeholder :: rest)) c s) :
    Visits visit n done (c :: rest) [r] [] where
  length_le := by simp
  visit j q hq := by
    cases j with
    | zero =>
      cases hq
      exact ⟨Nat.le_refl 0, c, s, rfl, by simp [hr]⟩
    | succ j => cases hq
  result j m hm := by cases hm

/-- The first visit, with the visits after it if it succeeds. -/
theorem cons (hr : r = visit (n.withChildren (done ++ placeholder :: rest)) c s)
    (hm : r.result = .ok m) (hv : Visits visit n (done ++ [m]) rest records results) :
    Visits visit n done (c :: rest) (r :: records) (m :: results) where
  length_le := by simpa using hv.length_le
  visit j q hq := by
    cases j with
    | zero =>
      cases hq
      exact ⟨Nat.zero_le _, c, s, rfl, by simp [hr]⟩
    | succ j =>
      obtain ⟨hj, d, t, hd, hq⟩ := hv.visit j q hq
      refine ⟨by simpa using hj, d, t, hd, ?_⟩
      rw [hq]
      simp
  result j x hx := by
    cases j with
    | zero =>
      cases hx
      exact ⟨r, rfl, hm⟩
    | succ j => exact hv.result j x hx

/-- If there are as many results as children, each child was visited, and each visit succeeded. -/
theorem complete (hv : Visits visit n done rest records results)
    (hall : results.length = rest.length) :
    List.Forall₂ (fun c q => ∃ x u r, q = visit x c u ∧ q.result = .ok r) rest records := by
  -- Each result comes from a visit, so there is a visit for each child.
  have hlen : records.length = rest.length := by
    apply Nat.le_antisymm hv.length_le
    by_contra hlt
    obtain ⟨q, hq, -⟩ := hv.result records.length results[records.length]
      (List.getElem?_eq_getElem (by omega))
    simp at hq
  refine List.forall₂_iff_get.2 ⟨hlen.symm, fun j hj hj' => ?_⟩
  obtain ⟨-, c, u, hc, hq⟩ := hv.visit j _ (List.getElem?_eq_getElem hj')
  obtain ⟨q, hq', hr⟩ := hv.result j results[j] (List.getElem?_eq_getElem (hall ▸ hj))
  rw [List.getElem?_eq_getElem hj'] at hq'
  rw [List.getElem?_eq_getElem hj] at hc
  cases hq'
  cases hc
  exact ⟨_, u, results[j], hq, hr⟩

end Visits

/-- The loop over children makes the visits to them, all of them if it succeeds. -/
theorem recordChildren_visits (visit : Node → Node → Recorder σ ε Node) (n : Node)
    (done rest : List Node) (s : σ) : ∃ records results, Visits visit n done rest records results ∧
      (Visitor.recordChildren visit n done rest s).marks =
        gather done.length (records.map (·.marks)) ∧
      ∀ cs, (Visitor.recordChildren visit n done rest s).result = .ok cs →
        cs = done ++ results ∧ results.length = rest.length := by
  induction rest generalizing done s with
  | nil =>
    refine ⟨[], [], .nil .., rfl, ?_⟩
    intro cs hcs
    cases hcs
    simp
  | cons c rest ih =>
    set r := visit (n.withChildren (done ++ placeholder :: rest)) c s with hr
    set first := (visit (n.withChildren (done ++ placeholder :: rest)) c).under done.length
    have hfirst : (first s).result = r.result := rfl
    unfold Visitor.recordChildren
    cases h : r.result with
    | error e =>
      rw [Recorder.bind_of_error (hfirst.trans h)]
      refine ⟨[r], [], .first hr, ?_, nofun⟩
      simp [gather, first, Recorder.under, hr]
    | ok m =>
      rw [Recorder.bind_of_ok (hfirst.trans h)]
      obtain ⟨records, results, hv, hmarks, hok⟩ := ih (done ++ [m]) r.state
      refine ⟨r :: records, m :: results, hv.cons hr h, ?_, ?_⟩
      · have hlen : (done ++ [m]).length = done.length + 1 := by simp
        rw [hlen] at hmarks
        rw [List.map_cons, gather]
        exact congrArg₂ (· ++ ·) rfl hmarks
      · intro cs hcs
        obtain ⟨rfl, hlen⟩ := hok cs hcs
        simp [hlen]

/-! ## One level -/

section Level

variable (v : Visitor σ ε)

/-- How a walk of some depth visits children. -/
def childVisit (depth : Nat) : Node → Node → Recorder σ ε Node :=
  fun parent c => v.recordWalk depth (some parent) c

theorem recordWalk_succ (depth : Nat) (parent : Option Node) (n : Node) :
    v.recordWalk (depth + 1) parent n = (do
      let m ← v.recordSweep .enter parent n
      let m ← v.recordBelow (childVisit v depth) m
      v.recordSweep .leave parent m) := rfl

/-- Between the sweeps there are visits to the children, to all of them if they succeed. -/
theorem recordBelow_visits (visit : Node → Node → Recorder σ ε Node) (n : Node) (s : σ) :
    ∃ records results, Visits visit n [] n.children records results ∧
      (v.recordBelow visit n s).marks = gather 0 (records.map (·.marks)) ∧
      ∀ m, (v.recordBelow visit n s).result = .ok m → if v.descends
        then results.length = n.children.length ∧ m = n.withChildren results
        else records = [] ∧ m = n := by
  unfold Visitor.recordBelow
  by_cases hd : v.descends = true
  · simp only [hd, if_true]
    obtain ⟨records, results, hv, hmarks, hok⟩ := recordChildren_visits visit n [] n.children s
    refine ⟨records, results, hv, ?_, ?_⟩
    · cases h : (Visitor.recordChildren visit n [] n.children s).result with
      | error e => rw [Recorder.bind_of_error h]; exact hmarks
      | ok cs =>
        rw [Recorder.bind_of_ok h, Recorder.pure_apply, List.append_nil]
        exact hmarks
    · intro m hm
      obtain ⟨cs, hcs, hm⟩ := Recorder.result_bind_eq_ok.1 hm
      obtain ⟨rfl, hlen⟩ := hok cs hcs
      cases hm
      exact ⟨hlen, rfl⟩
  · rw [if_neg hd]
    refine ⟨[], [], .nil .., rfl, ?_⟩
    intro m hm
    cases hm
    rw [if_neg hd]
    exact ⟨rfl, rfl⟩

/-- The marks of a walk: those of the first sweep, of visits to the children of the node with which
it ends, and of the last sweep, on a node of the same kind; the walk may stop before the visits or
before the last sweep. -/
theorem recordWalk_parts (depth : Nat) (parent : Option Node) (n : Node) (s : σ) :
    ∃ (records : List (Record σ ε Node)) (last : List (Mark ε)),
      (v.recordWalk (depth + 1) parent n s).marks =
        (v.recordSweep .enter parent n s).marks ++ (gather 0 (records.map (·.marks)) ++ last) ∧
      (records = [] ∨ ∃ m results, (v.recordSweep .enter parent n s).result = .ok m ∧
        Visits (childVisit v depth) m [] m.children records results) ∧
      (last = [] ∨ ∃ m m' t, (v.recordSweep .enter parent n s).result = .ok m ∧
        m'.kind = m.kind ∧ last = (v.recordSweep .leave parent m' t).marks) := by
  rw [recordWalk_succ]
  cases hA : (v.recordSweep .enter parent n s).result with
  | error e =>
    rw [Recorder.bind_of_error hA]
    exact ⟨[], [], by simp [gather], .inl rfl, .inl rfl⟩
  | ok m =>
    rw [Recorder.bind_of_ok hA]
    set t := (v.recordSweep .enter parent n s).state
    obtain ⟨records, results, hv, hmarks, hok⟩ := recordBelow_visits v (childVisit v depth) m t
    cases hB : (v.recordBelow (childVisit v depth) m t).result with
    | error e =>
      rw [Recorder.bind_of_error hB, hmarks]
      exact ⟨records, [], by simp, .inr ⟨m, results, rfl, hv⟩, .inl rfl⟩
    | ok m' =>
      rw [Recorder.bind_of_ok hB, hmarks]
      have hkind : m'.kind = m.kind := by
        have hm' := hok m' hB
        by_cases hd : v.descends = true
        · rw [if_pos hd] at hm'
          rw [hm'.2, Node.kind_withChildren]
        · rw [if_neg hd] at hm'
          rw [hm'.2]
      exact ⟨records, _, rfl, .inr ⟨m, results, rfl, hv⟩, .inr ⟨m, m', _, rfl, hkind, rfl⟩⟩

/-- The marks of a walk, whatever the node is on which the last sweep runs. -/
theorem recordWalk_marks (depth : Nat) (parent : Option Node) (n : Node) (s : σ) :
    ∃ (records : List (Record σ ε Node)) (last : List (Mark ε)),
      (v.recordWalk (depth + 1) parent n s).marks =
        (v.recordSweep .enter parent n s).marks ++ (gather 0 (records.map (·.marks)) ++ last) ∧
      (records = [] ∨ ∃ m results, (v.recordSweep .enter parent n s).result = .ok m ∧
        Visits (childVisit v depth) m [] m.children records results) ∧
      (last = [] ∨ ∃ m t, last = (v.recordSweep .leave parent m t).marks) := by
  obtain ⟨records, last, hmarks, hrecords, hlast⟩ := recordWalk_parts v depth parent n s
  refine ⟨records, last, hmarks, hrecords, hlast.imp_right ?_⟩
  rintro ⟨m, m', t, -, -, h⟩
  exact ⟨m', t, h⟩

/-- The marks of a walk that succeeds. -/
theorem recordWalk_of_ok {depth : Nat} {parent : Option Node} {n r : Node} {s : σ}
    (h : (v.recordWalk (depth + 1) parent n s).result = .ok r) :
    ∃ (records : List (Record σ ε Node)) (results : List Node) (m m' : Node) (t : σ),
      (v.recordWalk (depth + 1) parent n s).marks =
        (v.recordSweep .enter parent n s).marks ++
          (gather 0 (records.map (·.marks)) ++ (v.recordSweep .leave parent m' t).marks) ∧
      (v.recordSweep .enter parent n s).result = .ok m ∧
      Visits (childVisit v depth) m [] m.children records results ∧
      (if v.descends then results.length = m.children.length ∧ m' = m.withChildren results
        else records = [] ∧ m' = m) ∧
      (v.recordSweep .leave parent m' t).result = .ok r := by
  rw [recordWalk_succ] at h ⊢
  obtain ⟨m, hA, h⟩ := Recorder.result_bind_eq_ok.1 h
  rw [Recorder.bind_of_ok hA]
  obtain ⟨m', hB, h⟩ := Recorder.result_bind_eq_ok.1 h
  rw [Recorder.bind_of_ok hB]
  obtain ⟨records, results, hv, hmarks, hok⟩ :=
    recordBelow_visits v (childVisit v depth) m (v.recordSweep .enter parent n s).state
  rw [hmarks]
  exact ⟨records, results, m, m', _, rfl, hA, hv, hok m' hB, h⟩

/-- A walk below the root that succeeds visits each child of the node with which the first sweep
ends, and succeeds there. -/
theorem recordWalk_complete (hd : v.descends = true) {depth : Nat} {parent : Option Node}
    {n r : Node} {s : σ} (h : (v.recordWalk (depth + 1) parent n s).result = .ok r) :
    ∃ (records : List (Record σ ε Node)) (m m' : Node) (t : σ),
      (v.recordWalk (depth + 1) parent n s).marks =
        (v.recordSweep .enter parent n s).marks ++
          (gather 0 (records.map (·.marks)) ++ (v.recordSweep .leave parent m' t).marks) ∧
      (v.recordSweep .enter parent n s).result = .ok m ∧
      records.length = m.children.length ∧
      ∀ (j : Nat) (q : Record σ ε Node), records[j]? = some q → ∃ c x u r,
        m.children[j]? = some c ∧ q = v.recordWalk depth x c u ∧ q.result = .ok r := by
  obtain ⟨records, results, m, m', t, hmarks, hm, hv, hall, -⟩ := recordWalk_of_ok v h
  rw [if_pos hd] at hall
  have hvisits := hv.complete hall.1
  refine ⟨records, m, m', t, hmarks, hm, hvisits.length_eq.symm, fun j q hq => ?_⟩
  obtain ⟨hj, rfl⟩ := List.getElem?_eq_some_iff.1 hq
  have hj' : j < m.children.length := hvisits.length_eq ▸ hj
  obtain ⟨x, u, r, hvisit, hr⟩ := hvisits.get hj' hj
  exact ⟨_, some x, u, r, List.getElem?_eq_getElem hj', hvisit, hr⟩

/-! ## Marks of one level -/

variable {v} {depth : Nat} {parent p : Option Node} {n m r : Node} {s : σ}
  {records : List (Record σ ε Node)} {last : List (Mark ε)}

/-- The marks below a place are those of the visit to it. -/
theorem under_mem_level (hlast : last = [] ∨ ∃ m t, last = (v.recordSweep .leave parent m t).marks)
    {j : Nat} {y : Mark ε} :
    y.under j ∈ (v.recordSweep .enter parent n s).marks ++
        (gather 0 (records.map (·.marks)) ++ last) ↔
      ∃ q, records[j]? = some q ∧ y ∈ q.marks := by
  have hA : y.under j ∉ (v.recordSweep .enter parent n s).marks := by
    intro h
    simpa using (mem_recordSweep h).1
  have hB : y.under j ∉ last := by
    intro h
    rcases hlast with rfl | ⟨m, t, rfl⟩
    · cases h
    · simpa using (mem_recordSweep h).1
  simp only [List.mem_append, hA, hB, under_mem_gather, false_or, or_false, List.getElem?_map,
    Option.map_eq_some_iff]
  constructor
  · rintro ⟨E, ⟨q, hq, rfl⟩, hy⟩
    exact ⟨q, hq, hy⟩
  · rintro ⟨q, hq, hy⟩
    exact ⟨_, ⟨q, hq, rfl⟩, hy⟩

/-- A mark below a place is one of a walk of which all marks are below that place. -/
theorem exists_visit_of_under_mem {j : Nat} {y : Mark ε}
    (h : y.under j ∈ (v.recordWalk (depth + 1) parent n s).marks) :
    ∃ x c t, y ∈ (v.recordWalk depth x c t).marks ∧
      ∀ z ∈ (v.recordWalk depth x c t).marks,
        z.under j ∈ (v.recordWalk (depth + 1) parent n s).marks := by
  obtain ⟨records, last, hmarks, hrecords, hlast⟩ := recordWalk_marks v depth parent n s
  rw [hmarks, under_mem_level hlast] at h
  obtain ⟨q, hq, hy⟩ := h
  rcases hrecords with rfl | ⟨m, results, -, hv⟩
  · cases hq
  · obtain ⟨-, c, t, -, rfl⟩ := hv.visit j q hq
    refine ⟨_, c, t, hy, ?_⟩
    intro z hz
    rw [hmarks, under_mem_level hlast]
    exact ⟨_, hq, hz⟩

/-- A mark at the root is one of the first or of the last sweep. -/
theorem mem_sweep_of_pos_eq_nil {y : Mark ε}
    (h : y ∈ (v.recordWalk (depth + 1) parent n s).marks) (hy : y.pos = []) :
    ∃ phase m t, y ∈ (v.recordSweep phase parent m t).marks := by
  obtain ⟨records, last, hmarks, -, hlast⟩ := recordWalk_marks v depth parent n s
  rw [hmarks, List.mem_append, List.mem_append] at h
  rcases h with h | h | h
  · exact ⟨_, _, _, h⟩
  · exact absurd hy (pos_ne_nil_of_mem_gather h)
  · rcases hlast with rfl | ⟨m, t, rfl⟩
    · cases h
    · exact ⟨_, _, _, h⟩

/-- The marks at the root on the first side are those of the first sweep. -/
theorem mem_recordWalk_enter {y : Mark ε} (hy : y.pos = []) (hphase : y.phase = .enter) :
    y ∈ (v.recordWalk (depth + 1) parent n s).marks ↔
      y ∈ (v.recordSweep .enter parent n s).marks := by
  obtain ⟨records, last, hmarks, -, hlast⟩ := recordWalk_marks v depth parent n s
  rw [hmarks, List.mem_append, List.mem_append]
  constructor
  · rintro (h | h | h)
    · exact h
    · exact absurd hy (pos_ne_nil_of_mem_gather h)
    · rcases hlast with rfl | ⟨m, t, rfl⟩
      · cases h
      · rw [(mem_recordSweep h).2] at hphase
        cases hphase
  · exact Or.inl

theorem begins_nil_mem_recordWalk :
    Mark.begins [] .enter p m ∈ (v.recordWalk (depth + 1) parent n s).marks ↔
      p = parent ∧ m = n := by
  rw [mem_recordWalk_enter rfl rfl, begins_mem_recordSweep]
  simp

theorem ends_nil_mem_recordWalk :
    Mark.ends [] .enter m ∈ (v.recordWalk (depth + 1) parent n s).marks ↔
      (v.recordSweep .enter parent n s).result = .ok m := by
  rw [mem_recordWalk_enter rfl rfl, ends_mem_recordSweep]
  simp

/-- A walk that succeeds ends with its result. -/
theorem ends_mem_of_ok (h : (v.recordWalk depth parent n s).result = .ok r) :
    Mark.ends [] .leave r ∈ (v.recordWalk depth parent n s).marks := by
  cases depth with
  | zero => cases h
  | succ depth =>
    obtain ⟨records, results, m, m', t, hmarks, -, -, -, hr⟩ := recordWalk_of_ok v h
    rw [hmarks]
    simp [ends_mem_recordSweep, hr]

end Level

end HtmlWalk
