import HtmlWalk.Proofs.Html.DocumentOrder
import HtmlWalk.Proofs.Html.ShownLines
import HtmlWalk.Proofs.Walk.Record

/-!
# What becomes of a document under construction

**Theorem (`Tracked.trees_complete`).** The nodes that become of a document are those of the
document in document order, the contents of a template after its own children, and without
processing instructions. Each has the data of the node that it comes from, and its parent comes from
the node in which that one stands, or in whose contents.

Nodes have no names of their own, so what becomes of a node is told by its place
(`Node.mem_placed`). Two lists are compared: the nodes of the tree with their places
(`Node.placed`), and the nodes under construction with the places that they come to
(`Tracked.placed`), which are counted without the nodes that are left out. That the one list becomes
of the other (`Tracked.placedAll_trees`) is an induction on the depth; that nodes are listed once
each, so that a node comes to one place, is the uniqueness of the way down.
-/

namespace HtmlWalk

/-! ## Nodes with their places -/

/-- Something at a place, as seen from the parent of the node to which the place is relative. -/
def atChild {α : Type} (i : Nat) (x : Position × α) : Position × α := (i :: x.1, x.2)

mutual

/-- A node and those below it in document order, each with its place. -/
def Node.placed : Node → List (Position × Own)
  | n@(.document _ cs) | n@(.fragment cs) | n@(.element _ cs) => ([], n.own) :: Node.placedAll 0 cs
  | n@(.doctype _) | n@(.comment _) | n@(.text _) => [([], n.own)]

/-- The nodes of a list of children, which starts with child `i`, in document order. -/
def Node.placedAll : Nat → List Node → List (Position × Own)
  | _, [] => []
  | i, c :: cs => c.placed.map (atChild i) ++ Node.placedAll (i + 1) cs

end

theorem Node.placed_eq (n : Node) : n.placed = ([], n.own) :: placedAll 0 n.children := by
  cases n <;> simp [placed, children, children?, placedAll]

mutual

theorem Node.map_placed : ∀ n : Node, n.placed.map Prod.snd = n.preorder.map own
  | .document _ cs | .fragment cs | .element _ cs => by
    simp [placed, preorder, map_placedAll 0 cs]
  | .doctype _ | .comment _ | .text _ => rfl

theorem Node.map_placedAll : ∀ (i : Nat) (cs : List Node),
    (placedAll i cs).map Prod.snd = (preorderAll cs).map own
  | _, [] => rfl
  | i, c :: cs => by
    simp [placedAll, preorderAll, atChild, ← map_placed c, map_placedAll (i + 1) cs,
      Function.comp_def]

end

theorem Node.mem_placedAll {k : Nat} {cs : List Node} {p : Position} {own : Own} :
    (p, own) ∈ placedAll k cs ↔
      ∃ i c q, cs[i]? = some c ∧ p = (k + i) :: q ∧ (q, own) ∈ c.placed := by
  induction cs generalizing k with
  | nil => simp [placedAll]
  | cons c cs ih =>
    rw [placedAll, List.mem_append, ih]
    constructor
    · rintro (h | ⟨i, d, q, hd, rfl, hq⟩)
      · obtain ⟨⟨q, o⟩, hq, heq⟩ := List.mem_map.1 h
        cases heq
        exact ⟨0, c, q, rfl, rfl, hq⟩
      · exact ⟨i + 1, d, q, hd, by rw [Nat.add_assoc, Nat.add_comm 1], hq⟩
    · rintro ⟨_ | i, d, q, hd, rfl, hq⟩
      · cases hd
        exact .inl (List.mem_map.2 ⟨_, hq, rfl⟩)
      · exact .inr ⟨i, d, q, hd, by rw [Nat.add_assoc, Nat.add_comm 1], hq⟩

/-- The places are those at which the nodes are. -/
theorem Node.mem_placed {n : Node} {p : Position} {own : Own} :
    (p, own) ∈ n.placed ↔ (n.at? p).map Node.own = some own := by
  induction p generalizing n with
  | nil =>
    rw [placed_eq, List.mem_cons, mem_placedAll, at?]
    simp [eq_comm]
  | cons i p ih =>
    rw [placed_eq, List.mem_cons, mem_placedAll, at?]
    constructor
    · rintro (h | ⟨j, c, q, hc, heq, hq⟩)
      · cases h
      · rw [Nat.zero_add, List.cons.injEq] at heq
        obtain ⟨rfl, rfl⟩ := heq
        rw [hc]
        exact ih.1 hq
    · intro h
      cases hc : n.children[i]? with
      | none =>
        rw [hc] at h
        cases h
      | some c =>
        rw [hc] at h
        exact .inr ⟨i, c, p, rfl.trans hc, by rw [Nat.zero_add], ih.2 h⟩

namespace Html

/-! ## The nodes that are shown, with the places they come to -/

namespace Dom

variable {d : Dom} {x id : NodeId}

/-- Whether a node is a processing instruction. -/
def isInstruction (d : Dom) (id : NodeId) : Bool :=
  match d.content? id with
  | some (.instruction ..) => true
  | _ => false

/-- Whether something becomes of a node. -/
def isShown (d : Dom) (id : NodeId) : Bool := (d.content? id).isSome && !d.isInstruction id

/-- The lists of the nodes that are shown among some, each below the place that its node comes to;
the first of them comes to place `i`. -/
def placedBelow (d : Dom) (f : NodeId → List (Position × NodeId)) :
    Nat → List NodeId → List (Position × NodeId)
  | _, [] => []
  | i, x :: xs =>
    if d.isShown x then (f x).map (atChild i) ++ d.placedBelow f (i + 1) xs
    else d.placedBelow f i xs

/-- A node and those below it that are shown, each with the place that it comes to. -/
def placedFrom (d : Dom) : Nat → NodeId → List (Position × NodeId)
  | 0, _ => []
  | depth + 1, id => ([], id) :: d.placedBelow (d.placedFrom depth) 0 (d.below id)

theorem below_of_not_isShown (h : d.isShown id = false) : d.below id = [] := by
  rw [below]
  cases hc : d.content? id with
  | none => rfl
  | some c => cases c <;> simp_all [isShown, isInstruction]

theorem map_placedBelow {f : NodeId → List (Position × NodeId)} {g : NodeId → List NodeId}
    (hf : ∀ x, d.isShown x → (f x).map Prod.snd = (g x).filter d.isShown)
    (hg : ∀ x, d.isShown x = false → (g x).filter d.isShown = []) (i : Nat) (xs : List NodeId) :
    (d.placedBelow f i xs).map Prod.snd = (xs.flatMap g).filter d.isShown := by
  induction xs generalizing i with
  | nil => rfl
  | cons x xs ih =>
    rw [placedBelow, List.flatMap_cons, List.filter_append]
    split
    · next h =>
      rw [List.map_append, ih, ← hf x h, List.map_map]
      rfl
    · next h => rw [ih, hg x (Bool.eq_false_iff.2 h), List.nil_append]

theorem placedBelow_eq_nil {f : NodeId → List (Position × NodeId)} (hf : ∀ x, f x = []) {i : Nat}
    {xs : List NodeId} : d.placedBelow f i xs = [] := by
  induction xs generalizing i with
  | nil => rfl
  | cons x xs ih => simp [placedBelow, hf, ih]

theorem filter_inOrderFrom (h : d.isShown id = false) (depth : Nat) :
    (d.inOrderFrom depth id).filter d.isShown = [] := by
  cases depth with
  | zero => rfl
  | succ depth => simp [inOrderFrom, below_of_not_isShown h, h]

theorem map_placedFrom (depth : Nat) (h : d.isShown id) :
    (d.placedFrom depth id).map Prod.snd = (d.inOrderFrom depth id).filter d.isShown := by
  induction depth generalizing id with
  | zero => rfl
  | succ depth ih =>
    rw [placedFrom, inOrderFrom, List.map_cons, List.filter_cons, if_pos h,
      map_placedBelow (fun _ => ih) fun _ hx => filter_inOrderFrom hx depth]

theorem mem_placedBelow {f : NodeId → List (Position × NodeId)} {i : Nat} {xs : List NodeId}
    {p : Position} (h : (p, x) ∈ d.placedBelow f i xs) :
    ∃ j y q, y ∈ xs ∧ p = j :: q ∧ (q, x) ∈ f y ∧
      ∀ r z, (r, z) ∈ f y → (j :: r, z) ∈ d.placedBelow f i xs := by
  induction xs generalizing i with
  | nil => cases h
  | cons y xs ih =>
    rw [placedBelow] at h ⊢
    split at h
    · next hshown =>
      rw [if_pos hshown]
      rcases List.mem_append.1 h with h | h
      · obtain ⟨⟨q, z⟩, hq, heq⟩ := List.mem_map.1 h
        cases heq
        exact ⟨i, y, q, List.mem_cons_self, rfl, hq, fun r z hz =>
          List.mem_append_left _ (List.mem_map.2 ⟨_, hz, rfl⟩)⟩
      · obtain ⟨j, w, q, hw, hp, hq, hall⟩ := ih h
        exact ⟨j, w, q, List.mem_cons_of_mem _ hw, hp, hq, fun r z hz =>
          List.mem_append_right _ (hall r z hz)⟩
    · next hshown =>
      rw [if_neg hshown]
      obtain ⟨j, w, q, hw, hp, hq, hall⟩ := ih h
      exact ⟨j, w, q, List.mem_cons_of_mem _ hw, hp, hq, hall⟩

/-- A node comes to the place of the node right above it, or it is the node from which the list
starts. -/
theorem parent_of_mem_placedFrom {depth : Nat} {p : Position}
    (h : (p, x) ∈ d.placedFrom depth id) :
    p = [] ∧ x = id ∨
      ∃ q e i, (q, e) ∈ d.placedFrom depth id ∧ x ∈ d.below e ∧ p = q ++ [i] := by
  induction depth generalizing id p with
  | zero => cases h
  | succ depth ih =>
    rw [placedFrom] at h
    rcases List.mem_cons.1 h with h | h
    · cases h
      exact .inl ⟨rfl, rfl⟩
    · obtain ⟨j, y, q, hy, rfl, hq, hall⟩ := mem_placedBelow h
      refine .inr ?_
      rcases ih hq with ⟨rfl, rfl⟩ | ⟨r, e, i, hr, he, rfl⟩
      · exact ⟨[], id, j, List.mem_cons_self, hy, rfl⟩
      · exact ⟨j :: r, e, i, List.mem_cons_of_mem _ (hall r e hr), he, rfl⟩

end Dom

/-! ## Reading off the tree -/

namespace Tracked

variable {t : Tracked} {located : Bool} {id : NodeId}

theorem own?_eq_none (h : t.dom.isShown id = false) : t.own? located id = none := by
  rw [own?]
  cases hc : t.dom.content? id with
  | none => rfl
  | some c => cases c <;> simp_all [Dom.isShown, Dom.isInstruction]

theorem exists_own? (located : Bool) (h : t.dom.isShown id) :
    ∃ own, t.own? located id = some own := by
  rw [own?]
  cases hc : t.dom.content? id with
  | none => simp [Dom.isShown, hc] at h
  | some c => cases c <;> simp_all [Dom.isShown, Dom.isInstruction]

/-- What becomes of a node: its data, with what becomes of the nodes right below it. -/
theorem toNodes_tree? (t : Tracked) (located : Bool) (depth : Nat) (id : NodeId) :
    (t.tree? located (depth + 1) id).toList.flatMap Tree.toNodes =
      (t.own? located id).toList.map fun own =>
        own.node (Tree.toNodesAll ((t.dom.below id).filterMap (t.tree? located depth))) := by
  rw [tree?, own?, Dom.below, Dom.content?]
  cases hs : t.dom.slot? id with
  | none => rfl
  | some s =>
    have hchildren : t.dom.list (.children id) = s.children := by rw [Dom.list, hs]; rfl
    have hcontents : t.dom.list (.contents id) = s.contents := by rw [Dom.list, hs]; rfl
    cases hc : s.content with
    | element name attrs =>
      simp only [Option.map_some, Option.bind_some, hc, hchildren, hcontents, Option.toList_some,
        List.flatMap_singleton, List.map_cons, List.map_nil, Tree.toNodes_element,
        Tree.inside_element]
      cases name.isHtml "template" <;> simp [Own.node, Tree.inside]
    | _ => simp [hc, hchildren, Tree.toNodes, Own.node]

theorem placedAll_cons (i : Nat) (own : Own) (kids rest : List Node)
    (h : own.kind.hasChildren = true ∨ kids = []) :
    Node.placedAll i (own.node kids :: rest) =
      (([], own) :: Node.placedAll 0 kids).map (atChild i) ++ Node.placedAll (i + 1) rest := by
  rw [Node.placedAll, Node.placed_eq, Own.own_node, Own.children_node h]

theorem hasChildren_of_own? {own : Own} (h : t.own? located id = some own) :
    own.kind.hasChildren = true ∨ t.dom.below id = [] := by
  rw [own?] at h
  rw [Dom.below]
  cases hc : t.dom.content? id with
  | none =>
    rw [hc] at h
    cases h
  | some c =>
    rw [hc] at h
    cases c <;> cases h <;> simp [Own.kind, Kind.hasChildren]

theorem toNodesAll_filterMap_cons (f : NodeId → Option Tree) (x : NodeId) (xs : List NodeId) :
    Tree.toNodesAll ((x :: xs).filterMap f) =
      (f x).toList.flatMap Tree.toNodes ++ Tree.toNodesAll (xs.filterMap f) := by
  cases h : f x <;> simp [h, Tree.toNodesAll]

/-- The data of a node with the place to which it comes, if something becomes of it. -/
def shown? (t : Tracked) (located : Bool) (x : Position × NodeId) : Option (Position × Own) :=
  (t.own? located x.2).map (x.1, ·)

theorem filterMap_shown?_atChild (i : Nat) (xs : List (Position × NodeId)) :
    (xs.map (atChild i)).filterMap (t.shown? located) =
      (xs.filterMap (t.shown? located)).map (atChild i) := by
  rw [List.filterMap_map, List.map_filterMap]
  congr 1
  funext x
  simp only [Function.comp_apply, shown?, atChild, Option.map_map]
  rfl

/-- What becomes of some nodes and of those below them, each with the place to which it comes. -/
theorem placedAll_trees (t : Tracked) (located : Bool) (depth i : Nat) (ids : List NodeId) :
    Node.placedAll i (Tree.toNodesAll (ids.filterMap (t.tree? located depth))) =
      (t.dom.placedBelow (t.dom.placedFrom depth) i ids).filterMap (t.shown? located) := by
  induction depth generalizing i ids with
  | zero =>
    have hnone : ids.filterMap (t.tree? located 0) = [] :=
      List.filterMap_eq_nil_iff.2 fun _ _ => rfl
    rw [hnone, Dom.placedBelow_eq_nil (f := t.dom.placedFrom 0) fun _ => rfl]
    rfl
  | succ depth ihdepth =>
    induction ids generalizing i with
    | nil => rfl
    | cons x xs ih =>
      rw [toNodesAll_filterMap_cons, toNodes_tree?, Dom.placedBelow]
      split
      · next hshown =>
        obtain ⟨own, hown⟩ := exists_own? located hshown
        have hkids := (hasChildren_of_own? hown).imp_right fun h =>
          congrArg (fun ids => Tree.toNodesAll (ids.filterMap (t.tree? located depth))) h
        rw [hown, List.filterMap_append, filterMap_shown?_atChild, Dom.placedFrom,
          List.filterMap_cons_some (b := ([], own)) (by simp [shown?, hown]), ← ihdepth, ← ih]
        exact placedAll_cons i own _ _ hkids
      · next hshown =>
        rw [own?_eq_none (Bool.eq_false_iff.2 hshown)]
        exact ih i

/-! ## The nodes of a place -/

/-- The nodes of a place and those below them that are shown, each with the place that it comes
to. -/
def placed (t : Tracked) (place : Place) : List (Position × NodeId) :=
  t.dom.placedBelow (t.dom.placedFrom t.dom.nodes.size) 0 (t.dom.list place).toList

theorem map_placed (t : Tracked) (place : Place) :
    (t.placed place).map Prod.snd = (t.dom.inOrder place).filter t.dom.isShown :=
  Dom.map_placedBelow (fun _ => Dom.map_placedFrom _) (fun _ h => Dom.filter_inOrderFrom h _) 0 _

/-- Nodes that are listed once each have an address: the place that they come to. -/
theorem exists_address {placed : List (Position × NodeId)} (h : (placed.map Prod.snd).Nodup) :
    ∃ address : NodeId → Position, ∀ x ∈ placed, address x.2 = x.1 := by
  refine ⟨fun id => ((placed.find? fun x => x.2 == id).map Prod.fst).getD [], fun x hx => ?_⟩
  cases hfind : placed.find? fun y => y.2 == x.2 with
  | none => exact absurd (beq_self_eq_true x.2) (List.find?_eq_none.1 hfind x hx)
  | some y =>
    have hy : y.2 = x.2 := by simpa using List.find?_some hfind
    obtain rfl : y = x := List.inj_on_of_nodup_map h (List.mem_of_find?_eq_some hfind) hx hy
    simp only [hfind, Option.map_some, Option.getD_some]

variable {place : Place} {above : List NodeId}

theorem mem_placed_parent (h : t.dom.Linked) {p : Position} (hx : (p, id) ∈ t.placed place) :
    (t.dom.parent? id = some place ∧ ∃ i, p = [i]) ∨
      ∃ e q i, (q, e) ∈ t.placed place ∧ p = q ++ [i] ∧
        (t.dom.parent? id = some (.children e) ∨ t.dom.parent? id = some (.contents e)) := by
  obtain ⟨j, root, q, hroot, rfl, hq, hall⟩ := Dom.mem_placedBelow hx
  rcases Dom.parent_of_mem_placedFrom hq with ⟨rfl, rfl⟩ | ⟨r, e, i, hr, he, rfl⟩
  · exact .inl ⟨h.parent? place id (Array.mem_toList_iff.1 hroot), j, rfl⟩
  · refine .inr ⟨e, j :: r, i, hall r e hr, rfl, ?_⟩
    exact (Dom.mem_below he).imp (h.parent? _ id) (h.parent? _ id)

theorem isShown_of_mem_inOrder (h : t.dom.Linked) (hid : id ∈ t.dom.inOrder place) :
    t.dom.isShown id = !t.dom.isInstruction id := by
  rw [Dom.isShown, h.isSome_content? (Dom.stands_of_mem_inOrder hid), Bool.true_and]

/-- What becomes of a place is in document order, and each node comes to the place of the one right
above it. -/
theorem exists_address_inOrder (h : t.dom.Linked) (hplace : t.dom.Leads above place)
    (located : Bool) :
    ∃ address : NodeId → Position,
      Node.placedAll 0 (Tree.toNodesAll (t.trees located place)) =
        (t.dom.inOrder place).filterMap (fun id => (t.own? located id).map (address id, ·)) ∧
      ∀ id ∈ t.dom.inOrder place, t.dom.isInstruction id = false →
        (t.dom.parent? id = some place ∧ ∃ i, address id = [i]) ∨
          ∃ e ∈ t.dom.inOrder place, ∃ i, address id = address e ++ [i] ∧
            (t.dom.parent? id = some (.children e) ∨ t.dom.parent? id = some (.contents e)) := by
  have hlisted := t.map_placed place
  obtain ⟨address, haddress⟩ := exists_address (hlisted ▸ (h.nodup_inOrder hplace).filter _)
  refine ⟨address, ?_, fun id hid hinstruction => ?_⟩
  · calc Node.placedAll 0 (Tree.toNodesAll (t.trees located place))
      _ = (t.placed place).filterMap (t.shown? located) := placedAll_trees t located _ 0 _
      _ = ((t.placed place).map Prod.snd).filterMap fun id =>
            (t.own? located id).map (address id, ·) := by
        rw [List.filterMap_map]
        refine List.filterMap_congr fun x hx => ?_
        rw [shown?, Function.comp_apply, haddress x hx]
      _ = (t.dom.inOrder place).filterMap fun id => (t.own? located id).map (address id, ·) := by
        rw [hlisted, List.filterMap_filter]
        refine List.filterMap_congr fun id _ => ?_
        split
        · rfl
        · next hid => rw [own?_eq_none (Bool.eq_false_iff.2 hid), Option.map_none]
  · have hid' : id ∈ (t.placed place).map Prod.snd := by
      rw [hlisted, List.mem_filter, isShown_of_mem_inOrder h hid, hinstruction]
      exact ⟨hid, rfl⟩
    obtain ⟨⟨p, x⟩, hx, rfl⟩ := List.mem_map.1 hid'
    rw [haddress _ hx]
    rcases mem_placed_parent h hx with hroot | ⟨e, q, i, he, hp, hparent⟩
    · exact .inl hroot
    · have he' : e ∈ (t.dom.inOrder place).filter t.dom.isShown :=
        hlisted ▸ List.mem_map.2 ⟨_, he, rfl⟩
      exact .inr ⟨e, (List.mem_filter.1 he').1, i, by rw [haddress _ he]; exact hp, hparent⟩

/-- The data of what becomes of a place is that of its nodes in document order. -/
theorem map_own_trees (h : t.dom.Linked) (hplace : t.dom.Leads above place) (located : Bool) :
    (Node.preorderAll (Tree.toNodesAll (t.trees located place))).map Node.own =
      (t.dom.inOrder place).filterMap (t.own? located) := by
  obtain ⟨address, hlist, -⟩ := exists_address_inOrder h hplace located
  rw [← Node.map_placedAll 0, hlist, List.map_filterMap]
  refine List.filterMap_congr fun id _ => ?_
  cases t.own? located id <;> rfl

/-- Of every node that stands in a place something becomes, unless it is a processing
instruction. -/
theorem size_of_children_eq (h : t.dom.Linked) (hplace : t.dom.Leads above place) {n : Node}
    (hn : n.children = Tree.toNodesAll (t.trees located place)) :
    n.size = (t.dom.inOrder place).countP (fun id => !t.dom.isInstruction id) + 1 := by
  rw [← n.length_preorder, n.preorder_eq, List.length_cons, hn, ← List.length_map (f := Node.own),
    map_own_trees h hplace, List.length_filterMap_eq_countP]
  congr 1
  refine List.countP_congr fun id hid => ?_
  rw [← isShown_of_mem_inOrder h hid]
  cases hshown : t.dom.isShown id with
  | true =>
    obtain ⟨own, hown⟩ := exists_own? located hshown
    simp [hown]
  | false => simp [own?_eq_none hshown]

/-- **Reading off a document loses nothing**, and neither repeats nor reorders anything. What
becomes of a place are its nodes in document order, each once and with its data, except for
processing instructions. A node that stands in another one, or in its contents, comes to a place
right below that of the other one. -/
theorem trees_complete (h : t.dom.Linked) (hplace : t.dom.Leads above place) (located : Bool) :
    (t.dom.inOrder place).Nodup ∧ (∀ id, id ∈ t.dom.inOrder place ↔ t.dom.Stands place id) ∧
    (∃ address : NodeId → Position,
      Node.placedAll 0 (Tree.toNodesAll (t.trees located place)) =
        (t.dom.inOrder place).filterMap (fun id => (t.own? located id).map (address id, ·)) ∧
      ∀ id ∈ t.dom.inOrder place, t.dom.isInstruction id = false →
        (t.dom.parent? id = some place ∧ ∃ i, address id = [i]) ∨
          ∃ e ∈ t.dom.inOrder place, ∃ i, address id = address e ++ [i] ∧
            (t.dom.parent? id = some (.children e) ∨ t.dom.parent? id = some (.contents e))) ∧
    ∀ n : Node, n.children = Tree.toNodesAll (t.trees located place) →
      n.size = (t.dom.inOrder place).countP (fun id => !t.dom.isInstruction id) + 1 :=
  ⟨h.nodup_inOrder hplace, fun _ => h.mem_inOrder hplace, exists_address_inOrder h hplace located,
    fun _ => size_of_children_eq h hplace⟩

/-- The edits that make a template with a child of its own, in its contents another template that
has a comment beside its contents, and in those an instruction and a text. -/
def nestedTemplates : List Edit := [
  .element ⟨.html, "template"⟩ [],
  .append .document (.node 0),
  .element ⟨.html, "p"⟩ [],
  .append (.children 0) (.node 2),
  .element ⟨.html, "template"⟩ [],
  .append (.contents 0) (.node 4),
  .instruction "a" "b",
  .append (.contents 4) (.node 6),
  .append (.contents 4) (.text "c"),
  .comment "d",
  .append (.children 4) (.node 9)]

theorem fit_nestedTemplates : Dom.Fit nestedTemplates := by
  intro i e he
  rcases i with _ | _ | _ | _ | _ | _ | _ | _ | _ | _ | _ | i <;> cases he <;>
  simp [Edit.Fits, Place.Within, Item.Within]

theorem trees_complete_nestedTemplates :
    (Dom.ofEdits nestedTemplates).inOrder .document = [0, 2, 4, 9, 6, 8] ∧
      (Node.fragment (Tree.toNodesAll
        (Tracked.trees { dom := Dom.ofEdits nestedTemplates } false .document))).size = 6 := by
  have hinOrder : (Dom.ofEdits nestedTemplates).inOrder .document = [0, 2, 4, 9, 6, 8] := by decide
  have hlinked : ({ dom := Dom.ofEdits nestedTemplates } : Tracked).dom.Linked :=
    Dom.linked_ofEdits fit_nestedTemplates
  have hleads : ({ dom := Dom.ofEdits nestedTemplates } : Tracked).dom.Leads [] .document := rfl
  have hsize := (trees_complete hlinked hleads false).2.2.2 (.fragment _) rfl
  rw [hinOrder] at hsize
  exact ⟨hinOrder, hsize.trans (by decide)⟩

end Tracked

end Html

end HtmlWalk
