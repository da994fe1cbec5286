import Mathlib.Data.List.Induction
import HtmlWalk.Node

/-!
# Writing attributes

The attributes of an element are a list in which a name may occur more than once, and the order of
the list counts when elements are compared. Reading and writing both mean the first of a name.

**Theorem (`setAttrs_updated`).** After any sequence of writes, a name reads as it was last written,
or as before if it was not written. The names stay in their places, and names that are new are added
at the end in the order in which they were first written. What stands behind the first of its name
is never changed. Two writes of different names one after the other can change places if, and only
if, one of the names is there already; otherwise the order of the new names shows which was first.

One write is opened by what it does to the values, to the names and to each place of the list; the
statements about sequences are inductions from the end.
-/

namespace HtmlWalk

namespace Attribute

/-- The names in a list of attributes, in order. -/
def names (attrs : List Attribute) : List String := attrs.map (·.name)

/-! ## One write -/

theorem names_set (name value : String) (attrs : List Attribute) :
    names (set name value attrs) =
      if name ∈ names attrs then names attrs else names attrs ++ [name] := by
  induction attrs with
  | nil => rfl
  | cons a rest ih =>
    unfold names at ih ⊢
    by_cases ha : a.name = name
    · simp [set, ha]
    · rw [set, if_neg ha, List.map_cons, List.map_cons, ih]
      simp only [List.mem_cons, Ne.symm ha, false_or]
      split <;> rfl

theorem getElem?_set_of_ne {name : String} (value : String) {attrs : List Attribute} {j : Nat}
    {b : Attribute} (hj : attrs[j]? = some b) (hb : b.name ≠ name) :
    (set name value attrs)[j]? = some b := by
  induction attrs generalizing j with
  | nil => cases hj
  | cons a rest ih =>
    cases j with
    | zero =>
      cases hj
      rw [set, if_neg hb, List.getElem?_cons_zero]
    | succ j =>
      rw [List.getElem?_cons_succ] at hj
      unfold set
      split
      · exact hj
      · exact ih hj

/-- An attribute behind another one of its name is not changed by a write. -/
theorem getElem?_set_of_lt (name value : String) {attrs : List Attribute} {i j : Nat}
    {b : Attribute} (hij : i < j) (hi : (names attrs)[i]? = some b.name)
    (hj : attrs[j]? = some b) : (set name value attrs)[j]? = some b := by
  induction attrs generalizing i j with
  | nil => cases hj
  | cons a rest ih =>
    obtain ⟨j, rfl⟩ := Nat.exists_eq_add_one_of_ne_zero (Nat.ne_zero_of_lt hij)
    rw [List.getElem?_cons_succ] at hj
    unfold set
    split
    case isTrue => exact hj
    case isFalse ha =>
      cases i with
      | zero =>
        -- The write passes over the first of this name, so it writes another name.
        have hb : a.name = b.name := by simpa [names] using hi
        exact getElem?_set_of_ne value hj (hb ▸ ha)
      | succ i => exact ih (Nat.lt_of_succ_lt_succ hij) hi hj

theorem set_comm {n m : String} (hne : n ≠ m) (x y : String) {attrs : List Attribute}
    (h : n ∈ names attrs ∨ m ∈ names attrs) :
    set m y (set n x attrs) = set n x (set m y attrs) := by
  induction attrs with
  | nil => simp [names] at h
  | cons a rest ih =>
    by_cases hn : a.name = n
    · have hm : a.name ≠ m := fun hm => hne (hn.symm.trans hm)
      simp [set, hn, hne]
    by_cases hm : a.name = m
    · simp [set, hm, hne.symm]
    have hrest : n ∈ names rest ∨ m ∈ names rest := by
      simpa [names, Ne.symm hn, Ne.symm hm] using h
    simp [set, hn, hm, ih hrest]

/-! ## Sequences of writes -/

/-- The list after each of the attributes has been written. -/
def setAll (writes attrs : List Attribute) : List Attribute :=
  writes.foldl (fun attrs w => set w.name w.value attrs) attrs

theorem setAll_append (ws us attrs : List Attribute) :
    setAll (ws ++ us) attrs = setAll us (setAll ws attrs) := List.foldl_append

theorem setAll_concat (ws : List Attribute) (w : Attribute) (attrs : List Attribute) :
    setAll (ws ++ [w]) attrs = set w.name w.value (setAll ws attrs) := setAll_append ws [w] attrs

/-- The last write of a name decides what it reads as. -/
theorem value?_setAll (name : String) (writes attrs : List Attribute) :
    value? name (setAll writes attrs) =
      ((writes.reverse.find? (·.name = name)).map (·.value)).or (value? name attrs) := by
  induction writes using List.reverseRecOn with
  | nil => rfl
  | append_singleton ws w ih =>
    rw [setAll_concat, value?_set, ih, List.reverse_append, List.reverse_singleton,
      List.singleton_append, List.find?_cons]
    by_cases h : w.name = name
    · simp [h]
    · simp [h, Ne.symm h]

/-- The names that a sequence of writes adds: those not there before, as they first occur. -/
def newNames (writes attrs : List Attribute) : List String :=
  ((names writes).filter (· ∉ names attrs)).eraseDups

theorem newNames_concat (ws : List Attribute) (w : Attribute) (attrs : List Attribute) :
    newNames (ws ++ [w]) attrs = newNames ws attrs ++
      if w.name ∈ names attrs ++ newNames ws attrs then [] else [w.name] := by
  have hnames : names (ws ++ [w]) = names ws ++ [w.name] := List.map_append
  unfold newNames
  rw [hnames, List.filter_append, List.eraseDups_append]
  congr 1
  simp only [List.mem_append, List.mem_eraseDups]
  by_cases hold : w.name ∈ names attrs
  · simp [hold, List.removeAll]
  · by_cases hnew : w.name ∈ names ws <;> simp [hold, hnew, List.removeAll, List.eraseDups_cons]

theorem names_setAll (writes attrs : List Attribute) :
    names (setAll writes attrs) = names attrs ++ newNames writes attrs := by
  induction writes using List.reverseRecOn with
  | nil => exact (List.append_nil _).symm
  | append_singleton ws w ih =>
    rw [setAll_concat, names_set, ih, newNames_concat]
    split
    · rw [List.append_nil]
    · rw [List.append_assoc]

/-- What stands behind the first of its name is not changed by any writes. -/
theorem getElem?_setAll_of_lt (writes : List Attribute) {attrs : List Attribute} {i j : Nat}
    {b : Attribute} (hij : i < j) (hi : (names attrs)[i]? = some b.name)
    (hj : attrs[j]? = some b) : (setAll writes attrs)[j]? = some b := by
  induction writes using List.reverseRecOn with
  | nil => exact hj
  | append_singleton ws w ih =>
    rw [setAll_concat]
    refine getElem?_set_of_lt _ _ hij ?_ ih
    rw [names_setAll, List.getElem?_append_left (List.getElem?_eq_some_iff.1 hi).1, hi]

/-- Two names that are new are added in the order in which they are written. -/
theorem names_setAll_of_new {a b : Attribute} {attrs : List Attribute} (ha : a.name ∉ names attrs)
    (hb : b.name ∉ names attrs) (hab : a.name ≠ b.name) (later : List Attribute) :
    ∃ added, names (setAll (a :: b :: later) attrs) = names attrs ++ a.name :: b.name :: added := by
  have hboth : b.name ∉ names attrs ++ [a.name] := by simp [hb, hab.symm]
  have hnames : names (set b.name b.value (set a.name a.value attrs)) =
      names attrs ++ [a.name, b.name] := by
    rw [names_set, names_set, if_neg ha, if_neg hboth, List.append_assoc, List.singleton_append]
  refine ⟨newNames later (set b.name b.value (set a.name a.value attrs)), ?_⟩
  have hcons : setAll (a :: b :: later) attrs =
      setAll later (set b.name b.value (set a.name a.value attrs)) := rfl
  rw [hcons, names_setAll, hnames, List.append_assoc]
  rfl

/-- Two writes of different names change places without a difference if and only if one of the names
is there already. -/
theorem setAll_swap_iff {w u : Attribute} (hne : w.name ≠ u.name)
    (earlier later attrs : List Attribute) :
    setAll (earlier ++ u :: w :: later) attrs = setAll (earlier ++ w :: u :: later) attrs ↔
      w.name ∈ names (setAll earlier attrs) ∨ u.name ∈ names (setAll earlier attrs) := by
  rw [setAll_append, setAll_append]
  generalize setAll earlier attrs = attrs
  constructor
  · intro h
    by_contra hnew
    obtain ⟨hw, hu⟩ := not_or.1 hnew
    obtain ⟨_, hfirst⟩ := names_setAll_of_new hu hw hne.symm later
    obtain ⟨_, hsecond⟩ := names_setAll_of_new hw hu hne later
    have hsame := hfirst.symm.trans ((congrArg names h).trans hsecond)
    exact hne (List.cons.inj (List.append_cancel_left hsame)).1.symm
  · intro h
    exact congrArg (setAll later) (set_comm hne w.value u.value h).symm

end Attribute

/-! ## Elements -/

namespace Node

/-- The node after each of the attributes has been written. -/
def setAttrs (writes : List Attribute) (n : Node) : Node :=
  writes.foldl (fun n w => n.setAttr w.name w.value) n

theorem setAttrs_element (writes : List Attribute) (e : Element) (cs : List Node) :
    (element e cs).setAttrs writes =
      element { e with attrs := Attribute.setAll writes e.attrs } cs := by
  induction writes generalizing e with
  | nil => rfl
  | cons w ws ih => exact ih { e with attrs := Attribute.set w.name w.value e.attrs }

end Node

/-- An element with these attributes after a sequence of writes. -/
structure Updated (e : Element) (cs : List Node) (writes attrs : List Attribute) : Prop where
  /-- The writes change nothing but the attributes. -/
  element : (Node.element e cs).setAttrs writes = .element { e with attrs } cs
  /-- A name reads as it was last written, or as before if it was not written. -/
  reads : ∀ name, ((Node.element e cs).setAttrs writes).attr? name =
    ((writes.reverse.find? (·.name = name)).map (·.value)).or ((Node.element e cs).attr? name)
  /-- The names stay in their places, and new ones follow in the order of their first writes. -/
  names : attrs.map (·.name) = e.attrs.map (·.name) ++
    ((writes.map (·.name)).filter (· ∉ e.attrs.map (·.name))).eraseDups
  /-- An attribute behind another one of its name is not changed. -/
  repeated : ∀ (i j : Nat) (a b : Attribute), i < j → e.attrs[i]? = some a →
    e.attrs[j]? = some b → a.name = b.name → attrs[j]? = some b
  /-- Two writes of different names one after the other can change places if and only if one of the
  names is there when they begin. -/
  swap : ∀ (earlier later : List Attribute) (w u : Attribute) (there : List Attribute),
    writes = earlier ++ w :: u :: later → w.name ≠ u.name →
      (Node.element e cs).setAttrs earlier = .element { e with attrs := there } cs →
      ((Node.element e cs).setAttrs (earlier ++ u :: w :: later) =
          (Node.element e cs).setAttrs writes ↔
        w.name ∈ there.map (·.name) ∨ u.name ∈ there.map (·.name))

/-- **Elements as stores of attributes.** -/
theorem setAttrs_updated (e : Element) (cs : List Node) (writes : List Attribute) :
    ∃ attrs, Updated e cs writes attrs := by
  have hlists : ∀ us vs : List Attribute,
      (Node.element e cs).setAttrs us = (Node.element e cs).setAttrs vs ↔
        Attribute.setAll us e.attrs = Attribute.setAll vs e.attrs := by
    intro us vs
    rw [Node.setAttrs_element, Node.setAttrs_element]
    simp
  refine ⟨Attribute.setAll writes e.attrs, Node.setAttrs_element writes e cs, ?_,
    Attribute.names_setAll writes e.attrs, ?_, ?_⟩
  · intro name
    rw [Node.setAttrs_element]
    exact Attribute.value?_setAll name writes e.attrs
  · intro i j a b hij hi hj hab
    refine Attribute.getElem?_setAll_of_lt writes hij ?_ hj
    rw [Attribute.names, List.getElem?_map, hi, Option.map_some, hab]
  · rintro earlier later w u there rfl hne hthere
    rw [Node.setAttrs_element] at hthere
    cases hthere
    exact (hlists _ _).trans (Attribute.setAll_swap_iff hne earlier later e.attrs)

/-- The first of two attributes of one name is written, and the new names are in the order of their
first writes. -/
example : (Node.element { tag := "a", attrs := [⟨"x", "1"⟩, ⟨"x", "2"⟩] } []).setAttrs
    [⟨"z", "3"⟩, ⟨"x", "4"⟩, ⟨"y", "5"⟩, ⟨"z", "6"⟩] =
      .element { tag := "a", attrs := [⟨"x", "4"⟩, ⟨"x", "2"⟩, ⟨"z", "6"⟩, ⟨"y", "5"⟩] } [] := rfl

end HtmlWalk
