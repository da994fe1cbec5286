import Mathlib.Data.List.Perm.Subperm
import HtmlWalk.Html.Tree
import HtmlWalk.Proofs.Html.Linked
import HtmlWalk.Proofs.Html.Renaming
import HtmlWalk.Proofs.Html.Tracking

/-!
# The depth of a document

A tree is read off a document to the depth of as many levels as the document has entries. The way
from the top of the document down to a node meets no node twice, because each node stands in one
place (`Dom.Linked.nodup_way`), and so nothing is cut off: reading to a greater depth gives the same
tree (`Tracked.tree?_of_le`).

**Theorem (`Tracked.trees_renamed`).** Two documents that are the same but for the names of their
nodes therefore have the same trees, although one of them may have more entries than the other.
-/

namespace HtmlWalk.Html

/-! ## The way down -/

namespace Dom

/-- The way from the top of the document down to a node, the last step first. -/
inductive Way (d : Dom) : List NodeId → Prop
  /-- A child of the document. -/
  | top {x : NodeId} : x ∈ d.top → Way d [x]
  /-- A child of the last node. -/
  | child {x id : NodeId} {ids : List NodeId} : x ∈ d.list (.children id) → Way d (id :: ids) →
    Way d (x :: id :: ids)
  /-- A node in the contents of the last node. -/
  | contents {x id : NodeId} {ids : List NodeId} : x ∈ d.list (.contents id) → Way d (id :: ids) →
    Way d (x :: id :: ids)

variable {d : Dom} {x : NodeId}

/-- The place in which the first of some nodes stands, given those above it. -/
theorem Linked.parent?_of_way (h : d.Linked) {ids : List NodeId} (hw : d.Way (x :: ids)) :
    (ids = [] ∧ d.parent? x = some .document) ∨
      ∃ id rest, ids = id :: rest ∧ d.Way ids ∧
        (d.parent? x = some (.children id) ∨ d.parent? x = some (.contents id)) := by
  cases hw with
  | top hx => exact .inl ⟨rfl, h.parent? .document x hx⟩
  | child hx hw => exact .inr ⟨_, _, rfl, hw, .inl (h.parent? _ x hx)⟩
  | contents hx hw => exact .inr ⟨_, _, rfl, hw, .inr (h.parent? _ x hx)⟩

/-- There is one way to a node. -/
theorem Linked.way_unique (h : d.Linked) {ids ids' : List NodeId} (hw : d.Way (x :: ids))
    (hw' : d.Way (x :: ids')) : ids = ids' := by
  induction ids generalizing x ids' with
  | nil =>
    rcases h.parent?_of_way hw with ⟨-, hp⟩ | ⟨_, _, hids, -⟩
    · rcases h.parent?_of_way hw' with ⟨rfl, -⟩ | ⟨_, _, -, -, hp' | hp'⟩
      · rfl
      · rw [hp] at hp'; cases hp'
      · rw [hp] at hp'; cases hp'
    · cases hids
  | cons id ids ih =>
    rcases h.parent?_of_way hw with ⟨hids, -⟩ | ⟨_, _, hids, hup, hp⟩
    · cases hids
    · cases hids
      rcases h.parent?_of_way hw' with ⟨-, hp'⟩ | ⟨id', rest', rfl, hup', hp'⟩
      · rcases hp with hp | hp <;> rw [hp] at hp' <;> cases hp'
      · obtain rfl : id = id' := by
          rcases hp with hp | hp <;> rcases hp' with hp' | hp' <;>
            rw [hp] at hp' <;> cases hp' <;> rfl
        rw [ih hup hup']

/-- The way to a node on the way. -/
theorem Way.of_mem {ids : List NodeId} (hw : d.Way ids) (hx : x ∈ ids) :
    ∃ rest, d.Way (x :: rest) ∧ rest.length < ids.length := by
  induction hw with
  | top hy =>
    rw [List.mem_singleton.1 hx]
    exact ⟨[], .top hy, by simp⟩
  | child hy hw ih | contents hy hw ih =>
    rcases List.mem_cons.1 hx with rfl | hx
    · first
        | exact ⟨_, .child hy hw, by simp⟩
        | exact ⟨_, .contents hy hw, by simp⟩
    · obtain ⟨rest, hrest, hlt⟩ := ih hx
      exact ⟨rest, hrest, Nat.lt_succ_of_lt hlt⟩

/-- The way down meets no node twice. -/
theorem Linked.nodup_way (h : d.Linked) {ids : List NodeId} (hw : d.Way ids) : ids.Nodup := by
  have hnot : ∀ {x ids}, d.Way (x :: ids) → d.Way ids → x ∉ ids := by
    intro x ids hw hup hx
    obtain ⟨rest, hrest, hlt⟩ := hup.of_mem hx
    rw [h.way_unique hw hrest] at hlt
    exact Nat.lt_irrefl _ hlt
  induction hw with
  | top hx => simp
  | child hx hw ih => exact List.nodup_cons.2 ⟨hnot (.child hx hw) hw, ih⟩
  | contents hx hw ih => exact List.nodup_cons.2 ⟨hnot (.contents hx hw) hw, ih⟩

/-- The way down is no longer than there are nodes. -/
theorem Linked.length_way_le (h : d.Linked) {ids : List NodeId} (hw : d.Way ids) :
    ids.length ≤ d.nodes.size := by
  have hlt : ∀ x ∈ ids, x < d.nodes.size := by
    intro x hx
    obtain ⟨rest, hrest, -⟩ := hw.of_mem hx
    rcases h.parent?_of_way hrest with ⟨-, hp⟩ | ⟨_, _, -, -, hp | hp⟩ <;>
      exact lt_size_of_parent? hp
  have hsub : ids ⊆ List.range d.nodes.size := fun x hx => List.mem_range.2 (hlt x hx)
  simpa using ((h.nodup_way hw).subperm hsub).length_le

end Dom

/-! ## The depth of a tree -/

namespace Tracked

variable {t : Tracked} {located : Bool}

/-- The tree of a node on the way down is not cut off, if it is read to the depth of all nodes. -/
theorem tree?_succ (h : t.dom.Linked) {depth : Nat} {id : NodeId} {ids : List NodeId}
    (hw : t.dom.Way (id :: ids)) (hdepth : t.dom.nodes.size ≤ depth + ids.length) :
    t.tree? located (depth + 1) id = t.tree? located depth id := by
  induction depth generalizing id ids with
  | zero =>
    have := h.length_way_le hw
    simp only [List.length_cons] at this
    omega
  | succ depth ih =>
    rw [tree?, tree?]
    cases hs : t.dom.slot? id with
    | none => rfl
    | some s =>
      have hbelow : ∀ xs : Array NodeId, (∀ x ∈ xs, t.dom.Way (x :: id :: ids)) →
          xs.toList.filterMap (t.tree? located (depth + 1)) =
            xs.toList.filterMap (t.tree? located depth) := by
        intro xs hxs
        refine List.filterMap_congr fun x hx => ih (hxs x (Array.mem_toList_iff.1 hx)) ?_
        simp only [List.length_cons]
        omega
      have hchildren := hbelow s.children fun x hx => .child (by simpa [Dom.list, hs] using hx) hw
      have hcontents := hbelow s.contents fun x hx =>
        .contents (by simpa [Dom.list, hs] using hx) hw
      simp only [Option.map_some, hchildren, hcontents]

/-- **Trees are not cut off.** From the number of nodes on, the depth makes no difference. -/
theorem tree?_of_le (h : t.dom.Linked) {depth : Nat} {id : NodeId} (hid : id ∈ t.dom.top)
    (hdepth : t.dom.nodes.size ≤ depth) :
    t.tree? located depth id = t.tree? located t.dom.nodes.size id := by
  obtain ⟨more, rfl⟩ := Nat.exists_eq_add_of_le hdepth
  clear hdepth
  induction more with
  | zero => rfl
  | succ more ih => rw [← Nat.add_assoc, tree?_succ h (.top hid) (by simp), ih]

/-! ## Trees and names -/

variable {t' : Tracked} {f : NodeId → NodeId}

/-- A tree without lines does not show the names of the nodes. -/
theorem tree?_renamed (h : t.dom.Renamed f t'.dom) (hmode : t'.mode = t.mode) (depth : Nat)
    (id : NodeId) : t'.tree? false depth (f id) = t.tree? false depth id := by
  induction depth generalizing id with
  | zero => rfl
  | succ depth ih =>
    have hbelow : ∀ xs : Array NodeId, (xs.map f).toList.filterMap (t'.tree? false depth) =
        xs.toList.filterMap (t.tree? false depth) := by
      intro xs
      rw [Array.toList_map, List.filterMap_map]
      exact List.filterMap_congr fun x _ => ih x
    rw [tree?, tree?, h.slot?, Option.map_map]
    congr 1
    funext s
    simp only [Function.comp_apply, Slot.rename, hbelow, hmode]
    rfl

/-- **The trees of a document do not show the names of its nodes.** -/
theorem trees_renamed (h : t.dom.Renamed f t'.dom) (hmode : t'.mode = t.mode)
    (hlinked : t.dom.Linked) (hsize : t.dom.nodes.size ≤ t'.dom.nodes.size) :
    t'.trees false .document = t.trees false .document := by
  unfold trees
  have hlist : t'.dom.list .document = (t.dom.list .document).map f := h.top
  rw [hlist, Array.toList_map, List.filterMap_map]
  refine List.filterMap_congr fun id hid => ?_
  rw [Function.comp_apply, tree?_renamed h hmode,
    tree?_of_le hlinked (Array.mem_toList_iff.1 hid) hsize]

end Tracked

end HtmlWalk.Html
