import HtmlWalk.Proofs.Walk.Level

/-!
# The order of visits

**Theorem (`traverse_depthFirst`).** In a walk that succeeds, whatever its callbacks replace, the
positions walked are the root and, below each of them, the places of the children that its node has
when its first sweep ends; each is walked once, and the marks come depth first (`DepthFirst`).

Which positions are walked is an induction on the depth, level by level. The order needs no
success: `Before` is the order in which the two sides of the places of a tree come in a tour of the
tree, and the marks of every record, cut off or not, are in that order, with one sweep at most for
each side of a place (`recordWalk_inOrder`).
-/

namespace HtmlWalk

variable {σ ε : Type}

/-! ## The order of places -/

/-- Whether one side of a place comes before one side of another: a place comes between the two
sides of each place above it, and after the places below earlier siblings. -/
def Before : Position → Phase → Position → Phase → Prop
  | [], a, [], b => a = .enter ∧ b = .leave
  | [], a, _ :: _, _ => a = .enter
  | _ :: _, _, [], b => b = .leave
  | i :: p, a, j :: q, b => i < j ∨ i = j ∧ Before p a q b

theorem not_before_self (p : Position) (a : Phase) : ¬ Before p a p a := by
  induction p with
  | nil => rintro ⟨rfl, h⟩; cases h
  | cons i p ih => simpa [Before] using ih

theorem enter_before_below (p : Position) (i : Nat) (q : Position) (a : Phase) :
    Before p .enter (p ++ i :: q) a := by
  induction p with
  | nil => rfl
  | cons j p ih => exact .inr ⟨rfl, ih⟩

theorem below_before_leave (p : Position) (i : Nat) (q : Position) (a : Phase) :
    Before (p ++ i :: q) a p .leave := by
  induction p with
  | nil => rfl
  | cons j p ih => exact .inr ⟨rfl, ih⟩

theorem sibling_before_sibling (p : Position) {i j : Nat} (h : i < j) (q r : Position)
    (a b : Phase) : Before (p ++ i :: q) a (p ++ j :: r) b := by
  induction p with
  | nil => exact .inl h
  | cons k p ih => exact .inr ⟨rfl, ih⟩

/-! ## Marks in order -/

namespace Mark

/-- Whether a mark must come before another. -/
def Before (x y : Mark ε) : Prop := HtmlWalk.Before x.pos x.phase y.pos y.phase

/-- Whether two marks both begin, or both end, a sweep on the same side of the same place. -/
def Clash : Mark ε → Mark ε → Prop
  | begins p a _ _, begins q b _ _ | ends p a _, ends q b _ => p = q ∧ a = b
  | _, _ => False

/-- Whether a mark may come after another. -/
def Follows (x y : Mark ε) : Prop := ¬ y.Before x ∧ ¬ x.Clash y

theorem before_under {i : Nat} {x y : Mark ε} :
    (x.under i).Before (y.under i) ↔ x.Before y := by
  simp [Before, HtmlWalk.Before]

theorem clash_under {i : Nat} {x y : Mark ε} : (x.under i).Clash (y.under i) ↔ x.Clash y := by
  cases x <;> cases y <;> simp [under, Clash]

theorem Clash.pos_eq {x y : Mark ε} (h : x.Clash y) : x.pos = y.pos := by
  cases x <;> cases y <;> first | exact h.1 | exact h.elim

theorem Clash.phase_eq {x y : Mark ε} (h : x.Clash y) : x.phase = y.phase := by
  cases x <;> cases y <;> first | exact h.2 | exact h.elim

theorem follows_under {i : Nat} {x y : Mark ε} :
    (x.under i).Follows (y.under i) ↔ x.Follows y := by
  rw [Follows, Follows, before_under, clash_under]

/-- A mark may come after those below an earlier sibling. -/
theorem follows_of_lt {i j : Nat} (h : i < j) (x y : Mark ε) :
    (x.under i).Follows (y.under j) := by
  constructor
  · intro hb
    simp only [Before, pos_under, HtmlWalk.Before] at hb
    omega
  · intro hc
    have := hc.pos_eq
    simp only [pos_under, List.cons.injEq] at this
    omega

/-- All other marks may come after the first sweep. -/
theorem follows_enter {x y : Mark ε} (hx : x.pos = [] ∧ x.phase = .enter)
    (hy : y.pos = [] → y.phase = .leave) : x.Follows y := by
  constructor
  · intro hb
    rw [Before, hx.1, hx.2] at hb
    cases hp : y.pos with
    | nil => rw [hp, hy hp] at hb; cases hb.1
    | cons i p => rw [hp] at hb; cases hb
  · intro hc
    have := hc.phase_eq
    rw [hx.2, hy (hc.pos_eq ▸ hx.1)] at this
    cases this

/-- The last sweep may come after all other marks. -/
theorem follows_leave {x y : Mark ε} (hx : x.pos = [] → x.phase = .enter)
    (hy : y.pos = [] ∧ y.phase = .leave) : x.Follows y := by
  constructor
  · intro hb
    rw [Before, hy.1, hy.2] at hb
    cases hp : x.pos with
    | nil => rw [hp] at hb; cases hb.1
    | cons i p => rw [hp] at hb; cases hb
  · intro hc
    have := hc.phase_eq
    rw [hx (hc.pos_eq.trans hy.1), hy.2] at this
    cases this

end Mark

/-- Marks of which each may come after all those before it. -/
def InOrder (marks : List (Mark ε)) : Prop := marks.Pairwise Mark.Follows

theorem inOrder_gather {Es : List (List (Mark ε))} (h : ∀ E ∈ Es, InOrder E) (i : Nat) :
    InOrder (gather i Es) := by
  induction Es generalizing i with
  | nil => exact .nil
  | cons E Es ih =>
    refine List.pairwise_append.2
      ⟨List.pairwise_map.2 ?_, ih (fun F hF => h F (by simp [hF])) _, ?_⟩
    · exact (h E (by simp)).imp Mark.follows_under.2
    · intro x hx y hy
      obtain ⟨x', -, rfl⟩ := List.mem_map.1 hx
      obtain ⟨j, F, y', -, -, rfl⟩ := mem_gather.1 hy
      exact Mark.follows_of_lt (by omega) x' y'

theorem inOrder_recordSweep (v : Visitor σ ε) (phase : Phase) (parent : Option Node) (n : Node)
    (s : σ) : InOrder (v.recordSweep phase parent n s).marks := by
  obtain ⟨cs, hcs, hmarks⟩ := recordSweep_marks v phase parent n s
  have hplace : ∀ x ∈ (v.recordSweep phase parent n s).marks,
      ∀ y ∈ (v.recordSweep phase parent n s).marks, ¬ y.Before x := by
    intro x hx y hy
    rw [Mark.Before, (mem_recordSweep hx).1, (mem_recordSweep hx).2, (mem_recordSweep hy).1,
      (mem_recordSweep hy).2]
    exact not_before_self _ _
  -- Only the first mark begins a sweep, and only the last one ends one.
  have hclash : (v.recordSweep phase parent n s).marks.Pairwise fun x y => ¬ x.Clash y := by
    rw [hmarks, List.pairwise_cons, List.pairwise_append]
    refine ⟨?_, List.pairwise_map.2 (List.pairwise_of_forall fun _ _ h => h), ?_, ?_⟩
    · intro x hx
      rcases List.mem_append.1 hx with hx | hx <;> obtain ⟨_, -, rfl⟩ := List.mem_map.1 hx <;>
        exact fun h => h
    · cases (v.recordSweep phase parent n s).result <;> simp [Except.toOption]
    · intro x hx y _
      obtain ⟨_, -, rfl⟩ := List.mem_map.1 hx
      cases y <;> exact fun h => h
  exact hclash.imp_of_mem fun hx hy hc => ⟨hplace _ hx _ hy, hc⟩

/-- **The marks of every walk are in order.** -/
theorem recordWalk_inOrder (v : Visitor σ ε) (depth : Nat) (parent : Option Node) (n : Node)
    (s : σ) : InOrder (v.recordWalk depth parent n s).marks := by
  induction depth generalizing parent n s with
  | zero => exact .nil
  | succ depth ih =>
    obtain ⟨records, last, hmarks, hrecords, hlast⟩ := recordWalk_marks v depth parent n s
    have hvisits : InOrder (gather 0 (records.map (·.marks))) := by
      apply inOrder_gather
      intro E hE
      obtain ⟨r, hr, rfl⟩ := List.mem_map.1 hE
      rcases hrecords with rfl | ⟨m, results, -, hv⟩
      · cases hr
      · obtain ⟨j, hj⟩ := List.getElem?_of_mem hr
        obtain ⟨-, c, t, -, rfl⟩ := hv.visit j r hj
        exact ih _ c t
    have hsweep : InOrder last ∧ ∀ x ∈ last, x.pos = [] ∧ x.phase = .leave := by
      rcases hlast with rfl | ⟨m, t, rfl⟩
      · exact ⟨.nil, nofun⟩
      · exact ⟨inOrder_recordSweep .., fun x hx => mem_recordSweep hx⟩
    have hlater : ∀ x ∈ gather 0 (records.map (·.marks)), ∀ y ∈ last, x.Follows y := by
      intro x hx y hy
      exact Mark.follows_leave (fun hp => absurd hp (pos_ne_nil_of_mem_gather hx)) (hsweep.2 y hy)
    have hfirst : ∀ x ∈ (v.recordSweep .enter parent n s).marks,
        ∀ y ∈ gather 0 (records.map (·.marks)) ++ last, x.Follows y := by
      intro x hx y hy
      apply Mark.follows_enter (mem_recordSweep hx)
      intro hp
      rcases List.mem_append.1 hy with hy | hy
      · exact absurd hp (pos_ne_nil_of_mem_gather hy)
      · exact (hsweep.2 y hy).2
    rw [hmarks, InOrder, List.pairwise_append, List.pairwise_append]
    exact ⟨inOrder_recordSweep .., ⟨hvisits, hsweep.1, hlater⟩, hfirst⟩

/-! ## Consequences of the order -/

/-- Every mark of one sort comes before every mark of another sort. -/
def AllBefore (marks : List (Mark ε)) (A B : Mark ε → Prop) : Prop :=
  ∀ (i j : Nat) (x y : Mark ε), marks[i]? = some x → marks[j]? = some y → A x → B y → i < j

/-- Two marks that stand in the order of a list, or are the same. -/
theorem InOrder.lt_or_follows {marks : List (Mark ε)} (h : InOrder marks) {i j : Nat}
    {x y : Mark ε} (hx : marks[i]? = some x) (hy : marks[j]? = some y) :
    i < j ∨ i = j ∨ y.Follows x := by
  obtain ⟨hi, rfl⟩ := List.getElem?_eq_some_iff.1 hx
  obtain ⟨hj, rfl⟩ := List.getElem?_eq_some_iff.1 hy
  rcases Nat.lt_trichotomy i j with hij | hij | hij
  · exact .inl hij
  · exact .inr (.inl hij)
  · exact .inr (.inr (List.pairwise_iff_getElem.1 h j i hj hi hij))

theorem InOrder.allBefore {marks : List (Mark ε)} (h : InOrder marks) {A B : Mark ε → Prop}
    (hAB : ∀ x y, A x → B y → x.Before y) : AllBefore marks A B := by
  intro i j x y hx hy hA hB
  rcases h.lt_or_follows hx hy with hij | rfl | hf
  · exact hij
  · rw [hx] at hy
    cases hy
    exact absurd (hAB x x hA hB) (not_before_self _ _)
  · exact absurd (hAB x y hA hB) hf.1

/-- Of two marks that begin, or that end, a sweep on one side of one place, each is the other. -/
theorem InOrder.eq_of_clash {marks : List (Mark ε)} (h : InOrder marks) {x y : Mark ε}
    (hx : x ∈ marks) (hy : y ∈ marks) (hxy : x.Clash y) (hyx : y.Clash x) : x = y := by
  obtain ⟨i, hi⟩ := List.getElem?_of_mem hx
  obtain ⟨j, hj⟩ := List.getElem?_of_mem hy
  rcases h.lt_or_follows hi hj with hij | rfl | hf
  · rcases h.lt_or_follows hj hi with hji | rfl | hf
    · omega
    · omega
    · exact absurd hxy hf.2
  · rw [hi] at hj
    cases hj
    rfl
  · exact absurd hyx hf.2

theorem InOrder.ends_unique {marks : List (Mark ε)} (h : InOrder marks) {p : Position} {a : Phase}
    {m m' : Node} (hm : Mark.ends p a m ∈ marks) (hm' : Mark.ends p a m' ∈ marks) : m = m' := by
  cases h.eq_of_clash hm hm' ⟨rfl, rfl⟩ ⟨rfl, rfl⟩
  rfl

/-! ## Walked positions -/

/-- A walk arrives at a position with a node. -/
def Arrives (marks : List (Mark ε)) (p : Position) (n : Node) : Prop :=
  ∃ parent, Mark.begins p .enter parent n ∈ marks

/-- The first sweep at a position ends with a node. -/
def Entered (marks : List (Mark ε)) (p : Position) (n : Node) : Prop :=
  Mark.ends p .enter n ∈ marks

/-- The position at which a walk arrives with this mark. -/
def Mark.arrival? : Mark ε → Option Position
  | .begins p .enter _ _ => some p
  | _ => none

theorem Mark.arrival?_eq_some {x : Mark ε} {p : Position} :
    x.arrival? = some p ↔ ∃ parent n, x = .begins p .enter parent n := by
  rcases x with ⟨q, _ | _, parent, n⟩ | _ | _ <;> simp [arrival?]

/-- The positions walked, in order. -/
def walked (marks : List (Mark ε)) : List Position := marks.filterMap Mark.arrival?

theorem mem_walked {marks : List (Mark ε)} {p : Position} :
    p ∈ walked marks ↔ ∃ n, Arrives marks p n := by
  simp only [walked, List.mem_filterMap, Mark.arrival?_eq_some]
  constructor
  · rintro ⟨_, hx, parent, n, rfl⟩
    exact ⟨n, parent, hx⟩
  · rintro ⟨n, parent, hx⟩
    exact ⟨_, hx, parent, n, rfl⟩

theorem InOrder.nodup_walked {marks : List (Mark ε)} (h : InOrder marks) :
    (walked marks).Nodup := by
  refine List.pairwise_filterMap.2 (h.imp fun {x y} hf p hp q hq => ?_)
  rintro rfl
  obtain ⟨_, _, rfl⟩ := Mark.arrival?_eq_some.1 hp
  obtain ⟨_, _, rfl⟩ := Mark.arrival?_eq_some.1 hq
  exact hf.2 ⟨rfl, rfl⟩

/-! ## Walks that succeed -/

variable {v : Visitor σ ε} {depth : Nat} {parent : Option Node} {n r : Node} {s t : σ}

/-- A walk arrives at its root with the node it is given. -/
theorem arrives_nil {c : Node} (h : (v.recordWalk depth parent n s).result = .ok r) :
    Arrives (v.recordWalk depth parent n s).marks [] c ↔ c = n := by
  cases depth with
  | zero => cases h
  | succ depth =>
    constructor
    · rintro ⟨p, hp⟩
      exact (begins_nil_mem_recordWalk.1 hp).2
    · rintro rfl
      exact ⟨parent, begins_nil_mem_recordWalk.2 ⟨rfl, rfl⟩⟩

/-- Below a place, a walk arrives and enters as the visit to the place does. -/
theorem arrives_cons {records : List (Record σ ε Node)} {last : List (Mark ε)}
    (hlast : last = [] ∨ ∃ m t, last = (v.recordSweep .leave parent m t).marks) {j : Nat}
    {p : Position} {c : Node} :
    Arrives ((v.recordSweep .enter parent n s).marks ++ (gather 0 (records.map (·.marks)) ++ last))
        (j :: p) c ↔ ∃ q, records[j]? = some q ∧ Arrives q.marks p c := by
  constructor
  · rintro ⟨parent, h⟩
    obtain ⟨q, hq, hmem⟩ := (under_mem_level (y := .begins p .enter parent c) hlast).1 h
    exact ⟨q, hq, parent, hmem⟩
  · rintro ⟨q, hq, parent, h⟩
    exact ⟨parent, (under_mem_level (y := .begins p .enter parent c) hlast).2 ⟨q, hq, h⟩⟩

theorem entered_cons {records : List (Record σ ε Node)} {last : List (Mark ε)}
    (hlast : last = [] ∨ ∃ m t, last = (v.recordSweep .leave parent m t).marks) {j : Nat}
    {p : Position} {c : Node} :
    Entered ((v.recordSweep .enter parent n s).marks ++ (gather 0 (records.map (·.marks)) ++ last))
        (j :: p) c ↔ ∃ q, records[j]? = some q ∧ Entered q.marks p c :=
  under_mem_level (y := .ends p .enter c) hlast

/-- Below a position, a walk arrives with the children that the node there has after the first
sweep. -/
theorem arrives_append (hd : v.descends = true)
    (h : (v.recordWalk depth parent n s).result = .ok r) (p : Position) (i : Nat) (c : Node) :
    Arrives (v.recordWalk depth parent n s).marks (p ++ [i]) c ↔
      ∃ m, Entered (v.recordWalk depth parent n s).marks p m ∧ m.children[i]? = some c := by
  induction depth generalizing parent n r s p with
  | zero => cases h
  | succ depth ih =>
    obtain ⟨records, m, m', t, hmarks, hm, hlen, hvisit⟩ := recordWalk_complete v hd h
    cases p with
    | nil =>
      have hroot : ∀ m₁, Entered (v.recordWalk (depth + 1) parent n s).marks [] m₁ ↔ m₁ = m :=
        fun m₁ => ends_nil_mem_recordWalk.trans (by rw [hm]; simp [eq_comm])
      simp only [hroot, exists_eq_left]
      rw [hmarks, List.nil_append, arrives_cons (.inr ⟨m', t, rfl⟩)]
      constructor
      · rintro ⟨q, hq, hc⟩
        obtain ⟨d, x, u, r, hd, rfl, hr⟩ := hvisit i q hq
        rw [(arrives_nil hr).1 hc]
        exact hd
      · intro hc
        have hi : i < records.length := by
          rw [hlen]
          exact (List.getElem?_eq_some_iff.1 hc).1
        obtain ⟨d, x, u, r, hd, hq, hr⟩ := hvisit i _ (List.getElem?_eq_getElem hi)
        rw [hc] at hd
        cases hd
        rw [hq] at hr
        exact ⟨_, List.getElem?_eq_getElem hi, by rw [hq]; exact (arrives_nil hr).2 rfl⟩
    | cons j p =>
      rw [hmarks, List.cons_append, arrives_cons (.inr ⟨m', t, rfl⟩)]
      simp only [entered_cons (.inr ⟨m', t, rfl⟩)]
      constructor
      · rintro ⟨q, hq, hc⟩
        obtain ⟨d, x, u, r, -, rfl, hr⟩ := hvisit j q hq
        obtain ⟨m₁, hm₁, hi⟩ := (ih hr p).1 hc
        exact ⟨m₁, ⟨_, hq, hm₁⟩, hi⟩
      · rintro ⟨m₁, ⟨q, hq, hm₁⟩, hi⟩
        obtain ⟨d, x, u, r, -, rfl, hr⟩ := hvisit j q hq
        exact ⟨_, hq, (ih hr p).2 ⟨m₁, hm₁, hi⟩⟩

/-- Each first sweep of a walk that succeeds ends with a node. -/
theorem exists_entered (hd : v.descends = true)
    (h : (v.recordWalk depth parent n s).result = .ok r) {p : Position} {c : Node}
    (hp : Arrives (v.recordWalk depth parent n s).marks p c) :
    ∃ m, Entered (v.recordWalk depth parent n s).marks p m := by
  induction depth generalizing parent n r s p with
  | zero => cases h
  | succ depth ih =>
    obtain ⟨records, m, m', t, hmarks, hm, -, hvisit⟩ := recordWalk_complete v hd h
    cases p with
    | nil => exact ⟨m, ends_nil_mem_recordWalk.2 hm⟩
    | cons j p =>
      rw [hmarks] at hp ⊢
      obtain ⟨q, hq, hp⟩ := (arrives_cons (.inr ⟨m', t, rfl⟩)).1 hp
      obtain ⟨d, x, u, r, -, rfl, hr⟩ := hvisit j q hq
      obtain ⟨m₁, hm₁⟩ := ih hr hp
      exact ⟨m₁, (entered_cons (.inr ⟨m', t, rfl⟩)).2 ⟨_, hq, hm₁⟩⟩

/-- There are marks at walked positions only. -/
theorem pos_mem_walked {x : Mark ε} (h : x ∈ (v.recordWalk depth parent n s).marks) :
    x.pos ∈ walked (v.recordWalk depth parent n s).marks := by
  rw [mem_walked]
  induction depth generalizing parent n s x with
  | zero => cases h
  | succ depth ih =>
    cases hx : x.pos with
    | nil => exact ⟨n, parent, begins_nil_mem_recordWalk.2 ⟨rfl, rfl⟩⟩
    | cons j p =>
      obtain ⟨y, rfl⟩ := Mark.exists_under hx
      obtain ⟨d, c, t, hvisit, hsub⟩ := exists_visit_of_under_mem h
      obtain ⟨m, q, hbegins⟩ := ih hvisit
      rw [Mark.pos_under] at hx
      cases hx
      exact ⟨m, q, hsub _ hbegins⟩

/-! ## The order of a whole walk -/

/-- A mark on one side of a place. -/
def On (p : Position) (a : Phase) (x : Mark ε) : Prop := x.pos = p ∧ x.phase = a

/-- A mark below a place. -/
def Below (p : Position) (x : Mark ε) : Prop := ∃ i q, x.pos = p ++ i :: q

/-- A mark at a child of a place, or below that. -/
def Within (p : Position) (i : Nat) (x : Mark ε) : Prop := ∃ q, x.pos = p ++ i :: q

/-- Marks of a depth-first walk of a tree that may change on the way. -/
structure DepthFirst (n : Node) (marks : List (Mark ε)) : Prop where
  /-- The walk arrives at the root with the tree. -/
  root : ∀ c, Arrives marks [] c ↔ c = n
  /-- It arrives below a place with the children of the node that the place has after its first
  sweep, and with no others. -/
  child : ∀ p i c, Arrives marks (p ++ [i]) c ↔ ∃ m, Entered marks p m ∧ m.children[i]? = some c
  /-- At each position walked, the first sweep ends with one node. -/
  entered : ∀ p ∈ walked marks, ∃! m, Entered marks p m
  /-- The positions walked are the root and the places of the children of entered nodes. -/
  positions : [] ∈ walked marks ∧
    ∀ p i, p ++ [i] ∈ walked marks ↔ ∃ m, Entered marks p m ∧ i < m.children.length
  /-- Nothing happens elsewhere. -/
  elsewhere : ∀ x ∈ marks, x.pos ∈ walked marks
  /-- Each position is walked once. -/
  once : (walked marks).Nodup
  /-- The first sweep at a place comes before all that is below. -/
  enter_first : ∀ p, AllBefore marks (On p .enter) (Below p)
  /-- Earlier siblings come before later ones, with all that is below them. -/
  siblings : ∀ p i j, i < j → AllBefore marks (Within p i) (Within p j)
  /-- The last sweep at a place comes after all that is below. -/
  leave_last : ∀ p, AllBefore marks (Below p) (On p .leave)

/-- **A walk that succeeds is depth first.** Its positions are the root and the places of the
children that its nodes have after their first sweeps, whatever the callbacks did before. -/
theorem traverse_depthFirst {v : Visitor σ ε} (hd : v.descends = true) {depth : Nat} {n r : Node}
    {s t : σ} (h : v.traverse depth n s = (.ok r, t)) :
    v.MakesCalls depth n s (callsOf (v.record depth n s).marks) ∧
      DepthFirst n (v.record depth n s).marks := by
  refine ⟨makesCalls_record v depth n s, ?_⟩
  have hv := Visitor.validate_of_ok h
  have hr : (v.recordWalk depth none n s).result = .ok r := by
    rw [traverse_eq_record, Visitor.record_of_valid hv] at h
    exact congrArg Prod.fst h
  rw [Visitor.record_of_valid hv]
  have horder := recordWalk_inOrder v depth none n s
  set marks := (v.recordWalk depth none n s).marks
  have hroot : ∀ c, Arrives marks [] c ↔ c = n := fun c => arrives_nil hr
  have hchild : ∀ p i c, Arrives marks (p ++ [i]) c ↔
      ∃ m, Entered marks p m ∧ m.children[i]? = some c := arrives_append hd hr
  have hentered : ∀ p ∈ walked marks, ∃! m, Entered marks p m := by
    intro p hp
    obtain ⟨c, hc⟩ := mem_walked.1 hp
    obtain ⟨m, hm⟩ := exists_entered hd hr hc
    exact ⟨m, hm, fun m' hm' => horder.ends_unique hm' hm⟩
  have hpositions : ∀ p i, p ++ [i] ∈ walked marks ↔
      ∃ m, Entered marks p m ∧ i < m.children.length := by
    intro p i
    simp only [mem_walked, hchild]
    constructor
    · rintro ⟨c, m, hm, hi⟩
      exact ⟨m, hm, (List.getElem?_eq_some_iff.1 hi).1⟩
    · rintro ⟨m, hm, hi⟩
      exact ⟨_, m, hm, List.getElem?_eq_getElem hi⟩
  -- What remains is the order of the places, to which the marks keep.
  have henter : ∀ p, AllBefore marks (On p .enter) (Below p) := by
    intro p
    apply horder.allBefore
    intro x y ⟨hx, ha⟩ ⟨i, q, hy⟩
    rw [Mark.Before, hx, ha, hy]
    exact enter_before_below p i q _
  have hsiblings : ∀ p i j, i < j → AllBefore marks (Within p i) (Within p j) := by
    intro p i j hij
    apply horder.allBefore
    intro x y ⟨q, hx⟩ ⟨r, hy⟩
    rw [Mark.Before, hx, hy]
    exact sibling_before_sibling p hij q r _ _
  have hleave : ∀ p, AllBefore marks (Below p) (On p .leave) := by
    intro p
    apply horder.allBefore
    intro x y ⟨i, q, hx⟩ ⟨hy, ha⟩
    rw [Mark.Before, hx, hy, ha]
    exact below_before_leave p i q _
  exact
    { root := hroot
      child := hchild
      entered := hentered
      positions := ⟨mem_walked.2 ⟨n, (hroot n).2 rfl⟩, hpositions⟩
      elsewhere := fun x hx => pos_mem_walked hx
      once := horder.nodup_walked
      enter_first := henter
      siblings := hsiblings
      leave_last := hleave }

/-- The visitor that fills empty elements with a text, and wraps texts when it leaves them. -/
def fillAndWrap : Visitor Unit String where
  hooks
    | .element => { enter := some fun n _ => match n with
        | .element e [] => pure (.element e [.ofText "filled"])
        | n => pure n }
    | .text => { leave := some fun n _ => pure (.ofTag "b" [n]) }
    | _ => {}

/-- The text that fills an element is walked, the elements that wrap texts are not. -/
theorem traverse_depthFirst_fillAndWrap :
    fillAndWrap.descends = true ∧
      fillAndWrap.traverse 3 (.ofTag "p" [.ofTag "q" [], .ofText "a"]) () =
        (.ok (.ofTag "p" [.ofTag "q" [.ofTag "b" [.ofText "filled"]], .ofTag "b" [.ofText "a"]]),
          ()) ∧
      walked (fillAndWrap.record 3 (.ofTag "p" [.ofTag "q" [], .ofText "a"]) ()).marks =
        [[], [0], [0, 0], [1]] ∧
      DepthFirst (.ofTag "p" [.ofTag "q" [], .ofText "a"])
        (fillAndWrap.record 3 (.ofTag "p" [.ofTag "q" [], .ofText "a"]) ()).marks := by
  have h : fillAndWrap.traverse 3 (.ofTag "p" [.ofTag "q" [], .ofText "a"]) () =
      (.ok (.ofTag "p" [.ofTag "q" [.ofTag "b" [.ofText "filled"]], .ofTag "b" [.ofText "a"]]),
        ()) := rfl
  exact ⟨rfl, h, rfl, (traverse_depthFirst rfl h).2⟩

end HtmlWalk
