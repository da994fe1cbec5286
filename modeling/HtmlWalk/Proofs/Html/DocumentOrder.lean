import Mathlib.Logic.Relation
import HtmlWalk.Proofs.Html.Depth

/-!
# Document order

The nodes under construction in document order: each before those below it, the contents of a
template after its own children.

**Theorem (`Dom.Linked.mem_inOrder`, `Dom.Linked.nodup_inOrder`).** Where nodes and places know each
other, the nodes of a place that is somewhere in the document are listed completely, and each once.

Both rest on the way down to a node, of which there is one. It is no longer than there are nodes, so
the list is not cut off, and it passes through one node of each level, so two siblings have no node
below them in common.
-/

namespace HtmlWalk.Html

namespace Dom

variable {d : Dom} {place : Place} {x y id : NodeId} {ids : List NodeId}

/-! ## Nodes below nodes -/

/-- The nodes directly below a node: its children, and after them its contents if it is a
template. -/
def below (d : Dom) (id : NodeId) : List NodeId :=
  match d.content? id with
  | some .document => (d.list (.children id)).toList
  | some (.element name _) =>
    (d.list (.children id)).toList ++
      if name.isHtml "template" then (d.list (.contents id)).toList else []
  | _ => []

/-- A node and those below it in document order, so many levels deep. -/
def inOrderFrom (d : Dom) : Nat → NodeId → List NodeId
  | 0, _ => []
  | depth + 1, id => id :: (d.below id).flatMap (d.inOrderFrom depth)

/-- The nodes of a place and those below them in document order. -/
def inOrder (d : Dom) (place : Place) : List NodeId :=
  (d.list place).toList.flatMap (d.inOrderFrom d.nodes.size)

/-- A node stands in a place or somewhere below it. -/
def Stands (d : Dom) (place : Place) (x : NodeId) : Prop :=
  ∃ root ∈ d.list place, Relation.ReflTransGen (fun a b => b ∈ d.below a) root x

/-- A place is the document, or in the node at the end of a way down. -/
def Leads (d : Dom) (ids : List NodeId) : Place → Prop
  | .document => ids = []
  | .children id | .contents id => ∃ rest, ids = id :: rest ∧ d.Way ids

theorem mem_below (h : x ∈ d.below id) :
    x ∈ d.list (.children id) ∨ x ∈ d.list (.contents id) := by
  rw [below] at h
  split at h
  · exact .inl (Array.mem_toList_iff.1 h)
  · rcases List.mem_append.1 h with h | h
    · exact .inl (Array.mem_toList_iff.1 h)
    · split at h
      · exact .inr (Array.mem_toList_iff.1 h)
      · cases h
  · cases h

/-! ## The way down -/

theorem way_below (hx : x ∈ d.below id) (hw : d.Way (id :: ids)) : d.Way (x :: id :: ids) := by
  rcases mem_below hx with hx | hx
  · exact .child hx hw
  · exact .contents hx hw

theorem Leads.way (h : d.Leads ids place) (hx : x ∈ d.list place) : d.Way (x :: ids) := by
  cases place with
  | document =>
    obtain rfl := h
    exact .top hx
  | children id =>
    obtain ⟨rest, rfl, hw⟩ := h
    exact .child hx hw
  | contents id =>
    obtain ⟨rest, rfl, hw⟩ := h
    exact .contents hx hw

/-- The way to a node of the list leads through the node from which the list starts. -/
theorem way_of_mem_inOrderFrom {depth : Nat} (hx : x ∈ d.inOrderFrom depth id)
    (hw : d.Way (id :: ids)) : ∃ rest, d.Way (x :: rest) ∧ (id :: ids) <:+ (x :: rest) := by
  induction depth generalizing id ids with
  | zero => cases hx
  | succ depth ih =>
    rcases List.mem_cons.1 hx with rfl | hx
    · exact ⟨ids, hw, List.suffix_rfl⟩
    · obtain ⟨y, hy, hx⟩ := List.mem_flatMap.1 hx
      obtain ⟨rest, hrest, hsuffix⟩ := ih hx (way_below hy hw)
      exact ⟨rest, hrest, (List.suffix_cons y _).trans hsuffix⟩

/-! ## Every node once -/

/-- A node that is in two of the lists has the nodes from which they start on the way to it. -/
theorem Linked.eq_of_mem_inOrderFrom (h : d.Linked) {depth depth' : Nat} {ids' : List NodeId}
    (hx : x ∈ d.inOrderFrom depth y) (hx' : x ∈ d.inOrderFrom depth' id)
    (hw : d.Way (y :: ids)) (hw' : d.Way (id :: ids')) (hlength : ids.length = ids'.length) :
    y = id := by
  obtain ⟨rest, hrest, hsuffix⟩ := way_of_mem_inOrderFrom hx hw
  obtain ⟨rest', hrest', hsuffix'⟩ := way_of_mem_inOrderFrom hx' hw'
  obtain rfl := h.way_unique hrest hrest'
  have heq : y :: ids = id :: ids' :=
    (List.suffix_of_suffix_length_le hsuffix hsuffix' (by simp [hlength])).eq_of_length
      (by simp [hlength])
  exact (List.cons.inj heq).1

theorem Linked.nodup_below (h : d.Linked) (id : NodeId) : (d.below id).Nodup := by
  rw [Dom.below]
  split
  · exact h.nodup _
  · refine List.Nodup.append (h.nodup _) ?_ ?_
    · split
      · exact h.nodup _
      · exact List.nodup_nil
    · intro x hx hx'
      split at hx'
      · have hparent := h.parent? (.children id) x (Array.mem_toList_iff.1 hx)
        rw [h.parent? (.contents id) x (Array.mem_toList_iff.1 hx')] at hparent
        cases hparent
      · cases hx'
  · exact List.nodup_nil

theorem Linked.nodup_flatMap (h : d.Linked) {xs : List NodeId} (hxs : xs.Nodup)
    (hw : ∀ x ∈ xs, d.Way (x :: ids)) {depth : Nat}
    (hdepth : ∀ x ∈ xs, (d.inOrderFrom depth x).Nodup) :
    (xs.flatMap (d.inOrderFrom depth)).Nodup := by
  refine List.nodup_flatMap.2 ⟨hdepth, ?_⟩
  refine hxs.imp_of_mem fun {a b} ha hb hne x hx hx' => hne ?_
  exact h.eq_of_mem_inOrderFrom hx hx' (hw a ha) (hw b hb) rfl

theorem Linked.nodup_inOrderFrom (h : d.Linked) (depth : Nat) (hw : d.Way (id :: ids)) :
    (d.inOrderFrom depth id).Nodup := by
  induction depth generalizing id ids with
  | zero => exact List.nodup_nil
  | succ depth ih =>
    refine List.nodup_cons.2 ⟨fun hid => ?_, h.nodup_flatMap (h.nodup_below id)
      (fun x hx => way_below hx hw) fun x hx => ih (way_below hx hw)⟩
    -- A node below itself would be twice on the way to it.
    obtain ⟨y, hy, hid⟩ := List.mem_flatMap.1 hid
    obtain ⟨rest, hrest, hsuffix⟩ := way_of_mem_inOrderFrom hid (way_below hy hw)
    rw [h.way_unique hrest hw] at hsuffix
    have := hsuffix.length_le
    simp only [List.length_cons] at this
    omega

/-- No node is listed twice. -/
theorem Linked.nodup_inOrder (h : d.Linked) (hplace : d.Leads ids place) :
    (d.inOrder place).Nodup :=
  h.nodup_flatMap (h.nodup place) (fun _ hx => hplace.way (Array.mem_toList_iff.1 hx)) fun _ hx =>
    h.nodup_inOrderFrom _ (hplace.way (Array.mem_toList_iff.1 hx))

/-! ## No node is left out -/

theorem Linked.mem_inOrderFrom (h : d.Linked)
    (hx : Relation.ReflTransGen (fun a b => b ∈ d.below a) id x) {depth : Nat}
    (hw : d.Way (id :: ids)) (hdepth : d.nodes.size ≤ depth + ids.length) :
    x ∈ d.inOrderFrom depth id := by
  induction hx using Relation.ReflTransGen.head_induction_on generalizing depth ids with
  | refl =>
    obtain _ | depth := depth
    · have := h.length_way_le hw
      simp only [List.length_cons] at this
      omega
    · exact List.mem_cons_self
  | head hbelow _ ih =>
    obtain _ | depth := depth
    · have := h.length_way_le hw
      simp only [List.length_cons] at this
      omega
    · refine List.mem_cons_of_mem _ (List.mem_flatMap.2 ⟨_, hbelow, ih (way_below hbelow hw) ?_⟩)
      simp only [List.length_cons]
      omega

theorem stands_of_mem_inOrderFrom {depth : Nat} (hx : x ∈ d.inOrderFrom depth id) :
    Relation.ReflTransGen (fun a b => b ∈ d.below a) id x := by
  induction depth generalizing id with
  | zero => cases hx
  | succ depth ih =>
    rcases List.mem_cons.1 hx with rfl | hx
    · exact .refl
    · obtain ⟨y, hy, hx⟩ := List.mem_flatMap.1 hx
      exact .head hy (ih hx)

theorem stands_of_mem_inOrder (hx : x ∈ d.inOrder place) : d.Stands place x := by
  obtain ⟨root, hroot, hx⟩ := List.mem_flatMap.1 hx
  exact ⟨root, Array.mem_toList_iff.1 hroot, stands_of_mem_inOrderFrom hx⟩

/-- Nothing else than nodes stands in a place. -/
theorem Linked.isSome_content? (h : d.Linked) (hx : d.Stands place x) :
    (d.content? x).isSome := by
  have hparent : ∃ p, d.parent? x = some p := by
    obtain ⟨root, hroot, hx⟩ := hx
    rcases hx.cases_tail with rfl | ⟨e, -, he⟩
    · exact ⟨place, h.parent? place x hroot⟩
    · rcases mem_below he with he | he
      · exact ⟨_, h.parent? _ x he⟩
      · exact ⟨_, h.parent? _ x he⟩
  obtain ⟨p, hp⟩ := hparent
  obtain ⟨s, hs, -⟩ := Option.bind_eq_some_iff.1 hp
  rw [content?, hs]
  rfl

/-- The nodes that are listed are those that stand in the place. -/
theorem Linked.mem_inOrder (h : d.Linked) (hplace : d.Leads ids place) :
    x ∈ d.inOrder place ↔ d.Stands place x := by
  refine ⟨stands_of_mem_inOrder, ?_⟩
  rintro ⟨root, hroot, hx⟩
  exact List.mem_flatMap.2 ⟨root, Array.mem_toList_iff.2 hroot,
    h.mem_inOrderFrom hx (hplace.way hroot) (Nat.le_add_right _ _)⟩

end Dom

end HtmlWalk.Html
