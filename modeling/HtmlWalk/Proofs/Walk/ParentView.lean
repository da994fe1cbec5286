import HtmlWalk.Proofs.Walk.VisitOrder

/-!
# What callbacks see of the parent

**Theorem (`calls_parent`).** In every run, also one that fails, a callback is told no parent at
the root or if its kind has none. All other calls at the place of a child are told one and the same
node: what the parent was when its first sweep ended, with the results of the earlier children in
their places, an empty text in the place of the child itself, and the later children as they were
(`SeenAbove`).

The proof follows the mark with which a walk arrives at a place, which notes the parent that the
walk is given. At the first level this is read off the loop over the children
(`recordChildren_visits`); deeper down, marks move below their place and keep what they say
(`Sees.under`).
-/

namespace HtmlWalk

variable {σ ε : Type}

/-! ## The parent that a walk is given -/

/-- The node that stands above the `i`-th child of a place while the child is walked. -/
def Sees (marks : List (Mark ε)) (q : Position) (i : Nat) (p : Node) : Prop :=
  ∃ (m : Node) (results : List Node), Entered marks q m ∧ results.length = i ∧
    i < m.children.length ∧
    (∀ (j : Nat) (r : Node), results[j]? = some r → Mark.ends (q ++ [j]) .leave r ∈ marks) ∧
    p = m.withChildren (results ++ placeholder :: m.children.drop (i + 1))

/-- What is seen in a visit to a child is seen in the whole walk, below the child. -/
theorem Sees.under {marks below : List (Mark ε)} {j : Nat} {q : Position} {i : Nat} {p : Node}
    (h : Sees below q i p) (hsub : ∀ y ∈ below, y.under j ∈ marks) : Sees marks (j :: q) i p := by
  obtain ⟨m, results, hm, hlen, hi, hres, hp⟩ := h
  exact ⟨m, results, hsub _ hm, hlen, hi, fun k r hr => hsub _ (hres k r hr), hp⟩

variable {v : Visitor σ ε} {depth : Nat} {parent p : Option Node} {n c : Node} {s : σ}
  {pos : Position}

/-- The result of a visit to a child is the node with which the walk at its place ends. -/
theorem Visits.ends_mem {records : List (Record σ ε Node)} {last : List (Mark ε)} {m : Node}
    {results : List Node}
    (hv : Visits (childVisit v depth) m [] m.children records results)
    (hlast : last = [] ∨ ∃ m t, last = (v.recordSweep .leave parent m t).marks) {k : Nat} {y : Node}
    (hk : results[k]? = some y) :
    Mark.ends [k] .leave y ∈ (v.recordSweep .enter parent n s).marks ++
      (gather 0 (records.map (·.marks)) ++ last) := by
  obtain ⟨r, hr, hok⟩ := hv.result k y hk
  obtain ⟨-, d, t, -, rfl⟩ := hv.visit k r hr
  have hends : Mark.ends [] .leave y ∈ (v.recordWalk depth (some _) d t).marks := ends_mem_of_ok hok
  exact (under_mem_level (y := .ends [] .leave y) hlast).2 ⟨_, hr, hends⟩

/-- A walk arrives at a place with the parent that stands above the place. -/
theorem begins_sees
    (h : Mark.begins pos .enter p c ∈ (v.recordWalk depth parent n s).marks) :
    (pos = [] ∧ p = parent) ∨ ∃ q i x, pos = q ++ [i] ∧ p = some x ∧
      Sees (v.recordWalk depth parent n s).marks q i x := by
  induction depth generalizing parent n s pos with
  | zero => cases h
  | succ depth ih =>
    cases pos with
    | nil => exact .inl ⟨rfl, (begins_nil_mem_recordWalk.1 h).1⟩
    | cons j pos =>
      right
      obtain ⟨records, last, hmarks, hrecords, hlast⟩ := recordWalk_marks v depth parent n s
      rw [hmarks] at h
      obtain ⟨r, hr, hmem⟩ := (under_mem_level (y := .begins pos .enter p c) hlast).1 h
      have hsub : ∀ y ∈ r.marks, y.under j ∈ (v.recordWalk (depth + 1) parent n s).marks := by
        intro y hy
        rw [hmarks]
        exact (under_mem_level hlast).2 ⟨r, hr, hy⟩
      rcases hrecords with rfl | ⟨m, results, hm, hv⟩
      · cases hr
      obtain ⟨hj, d, t, hd, hr'⟩ := hv.visit j r hr
      subst hr'
      rcases ih hmem with ⟨rfl, rfl⟩ | ⟨q, i, x, rfl, rfl, hx⟩
      · have hentered : Entered (v.recordWalk (depth + 1) parent n s).marks [] m :=
          ends_nil_mem_recordWalk.2 hm
        have hlt : j < m.children.length := (List.getElem?_eq_some_iff.1 hd).1
        -- The results of the earlier children are those with which their visits end.
        have hearlier : ∀ k y, (results.take j)[k]? = some y →
            Mark.ends [k] .leave y ∈ (v.recordWalk (depth + 1) parent n s).marks := by
          intro k y hk
          rw [List.getElem?_take] at hk
          split at hk
          · rw [hmarks]
            exact hv.ends_mem hlast hk
          · cases hk
        exact ⟨[], j, _, rfl, rfl, m, results.take j, hentered, by simp [hj], hlt, hearlier, rfl⟩
      · exact ⟨j :: q, i, x, rfl, rfl, hx.under hsub⟩

/-- A callback is told the parent with which the walk arrived at its place. -/
theorem calls_begins {d : Call ε} (h : Mark.calls pos d ∈ (v.recordWalk depth parent n s).marks) :
    ∃ p m, Mark.begins pos .enter p m ∈ (v.recordWalk depth parent n s).marks ∧
      d.parent = parentFor d.kind p := by
  induction depth generalizing parent n s pos with
  | zero => cases h
  | succ depth ih =>
    cases pos with
    | nil =>
      obtain ⟨phase, m, t, hsweep⟩ := mem_sweep_of_pos_eq_nil h rfl
      exact ⟨parent, n, begins_nil_mem_recordWalk.2 ⟨rfl, rfl⟩, (calls_mem_recordSweep hsweep).2.2⟩
    | cons j pos =>
      obtain ⟨x, c, t, hvisit, hsub⟩ := exists_visit_of_under_mem (y := .calls pos d) h
      obtain ⟨p, m, hbegins, hd⟩ := ih hvisit
      exact ⟨p, m, hsub _ hbegins, hd⟩

theorem InOrder.begins_unique {marks : List (Mark ε)} (h : InOrder marks) {q : Position} {a : Phase}
    {p p' : Option Node} {m m' : Node} (hm : Mark.begins q a p m ∈ marks)
    (hm' : Mark.begins q a p' m' ∈ marks) : p = p' := by
  cases h.eq_of_clash hm hm' ⟨rfl, rfl⟩ ⟨rfl, rfl⟩
  rfl

/-! ## What the parent looks like -/

theorem Node.children_withChildren_of_lt {m : Node} {i : Nat} (h : i < m.children.length)
    (cs : List Node) : (m.withChildren cs).children = cs := by
  cases m <;> first | rfl | exact absurd h (Nat.not_lt_zero i)

/-- A node that shows a place as it is while its `i`-th child is walked, when `m` is the node with
which the first sweep at the place ended. -/
structure SeenAbove (marks : List (Mark ε)) (q : Position) (i : Nat) (m p : Node) : Prop where
  /-- The first sweep ended with `m` and with no other node. -/
  entered : ∀ m', Entered marks q m' ↔ m' = m
  /-- The data besides the children is that of `m`. -/
  own : p.own = m.own
  /-- There are as many children. -/
  length : p.children.length = m.children.length
  /-- An empty text of no known line is in the place of the child. -/
  here : p.children[i]? = some (.text ⟨"", none⟩)
  /-- Earlier children are the results of their walks. -/
  earlier : ∀ j < i, ∃ r, p.children[j]? = some r ∧
    ∀ r', Mark.ends (q ++ [j]) .leave r' ∈ marks ↔ r' = r
  /-- Later children are as they were. -/
  later : ∀ j, i < j → p.children[j]? = m.children[j]?

theorem Sees.seenAbove {marks : List (Mark ε)} (horder : InOrder marks) {q : Position} {i : Nat}
    {p : Node} (h : Sees marks q i p) : ∃ m, SeenAbove marks q i m p := by
  obtain ⟨m, results, hm, rfl, hi, hres, rfl⟩ := h
  have hcs := Node.children_withChildren_of_lt hi
    (results ++ placeholder :: m.children.drop (results.length + 1))
  refine ⟨m, ⟨?_, Node.own_withChildren .., ?_, ?_, ?_, ?_⟩⟩
  · intro m'
    constructor
    · intro hm'
      exact horder.ends_unique hm' hm
    · rintro rfl
      exact hm
  · rw [hcs]
    simp only [List.length_append, List.length_cons, List.length_drop]
    omega
  · rw [hcs, List.getElem?_append_right (Nat.le_refl _), Nat.sub_self]
    rfl
  · intro j hj
    have hr := hres j results[j] (List.getElem?_eq_getElem hj)
    refine ⟨results[j], ?_, fun r' => ⟨fun hr' => horder.ends_unique hr' hr, fun h => h ▸ hr⟩⟩
    rw [hcs, List.getElem?_append_left hj, List.getElem?_eq_getElem hj]
  · intro j hj
    rw [hcs, List.getElem?_append_right (Nat.le_of_lt hj)]
    obtain ⟨k, rfl⟩ := Nat.exists_eq_add_of_lt hj
    have hsub : results.length + k + 1 - results.length = k + 1 := by omega
    rw [hsub, List.getElem?_cons_succ, List.getElem?_drop]
    congr 1
    omega

/-- **What callbacks are told of the parent.** At the root, and for a kind without parents, nothing;
at the place of a child, one and the same node for all calls, which shows the parent as it is while
the child is walked. -/
theorem calls_parent (v : Visitor σ ε) (depth : Nat) (n : Node) (s : σ) :
    v.MakesCalls depth n s (callsOf (v.record depth n s).marks) ∧
    ∀ pos c, Mark.calls pos c ∈ (v.record depth n s).marks →
      (c.kind = .document ∨ c.kind = .fragment ∨ c.kind = .doctype ∨ pos = [] → c.parent = none) ∧
      ∀ q i, pos = q ++ [i] → ∃ m p, SeenAbove (v.record depth n s).marks q i m p ∧
        ∀ d, Mark.calls pos d ∈ (v.record depth n s).marks →
          d.kind = .element ∨ d.kind = .comment ∨ d.kind = .text → d.parent = some p := by
  refine ⟨makesCalls_record v depth n s, ?_⟩
  intro pos c h
  have hv : v.validate = .ok () := by
    cases hv : v.validate with
    | ok u => rfl
    | error e =>
      rw [Visitor.record_of_invalid hv] at h
      cases h
  rw [Visitor.record_of_valid hv] at h ⊢
  have horder := recordWalk_inOrder v depth none n s
  obtain ⟨p, m, hbegins, hparent⟩ := calls_begins h
  constructor
  · intro hnone
    rw [hparent]
    rcases hnone with hk | hk | hk | rfl
    · rw [hk]; rfl
    · rw [hk]; rfl
    · rw [hk]; rfl
    · rcases begins_sees hbegins with ⟨-, rfl⟩ | ⟨q, i, x, hq, -⟩
      · simp [parentFor]
      · simp at hq
  · intro q i hq
    subst hq
    rcases begins_sees hbegins with ⟨hq, -⟩ | ⟨q', i', x, hq, rfl, hsees⟩
    · simp at hq
    · obtain ⟨rfl, hi⟩ := List.append_inj' hq rfl
      cases hi
      obtain ⟨m₁, hm₁⟩ := hsees.seenAbove horder
      refine ⟨m₁, x, hm₁, ?_⟩
      -- Any other call at the place goes back to the same arrival.
      intro d hd hk
      obtain ⟨p', m', hbegins', hparent'⟩ := calls_begins hd
      have hsame : some x = p' := horder.begins_unique hbegins hbegins'
      rw [hparent', ← hsame]
      rcases hk with hk | hk | hk <;> rw [hk] <;> rfl

/-- The visitor that turns texts into comments. -/
def commentOut : Visitor Unit String where
  hooks
    | .text => { enter := some fun n _ => pure (.ofComment (n.text?.getD "")) }
    | _ => {}

/-- At the second text, the first one is a comment already, and the second one an empty text. -/
theorem calls_parent_commentOut :
    Mark.calls [1] ⟨.enter, .text, .ofText "b", some (.ofTag "p" [.ofComment "a", .ofText ""]),
        .ok (.ofComment "b")⟩ ∈
      (commentOut.record 2 (.ofTag "p" [.ofText "a", .ofText "b"]) ()).marks ∧
    ∃ m, SeenAbove (commentOut.record 2 (.ofTag "p" [.ofText "a", .ofText "b"]) ()).marks [] 1 m
      (.ofTag "p" [.ofComment "a", .ofText ""]) := by
  have hcall : Mark.calls [1] ⟨.enter, .text, .ofText "b",
      some (.ofTag "p" [.ofComment "a", .ofText ""]), .ok (.ofComment "b")⟩ ∈
        (commentOut.record 2 (.ofTag "p" [.ofText "a", .ofText "b"]) ()).marks :=
    List.mem_of_getElem? (i := 8) rfl
  have hparent := (calls_parent commentOut 2 (.ofTag "p" [.ofText "a", .ofText "b"]) ()).2
  obtain ⟨m, p, hseen, hall⟩ := (hparent [1] _ hcall).2 [] 1 rfl
  cases hall _ hcall (.inr (.inr rfl))
  exact ⟨hcall, m, hseen⟩

end HtmlWalk
