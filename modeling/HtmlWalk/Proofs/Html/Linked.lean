import Mathlib.Data.List.Nodup
import Mathlib.Data.List.Induction
import Mathlib.Data.List.InsertIdx
import HtmlWalk.Proofs.Html.Edits

/-!
# Nodes and places know each other

In a document under construction a node knows its place, and a place its nodes.

**Theorem (`Dom.Linked.apply`).** Edits keep the two in step: whatever stands in a place has its
link there, and it stands there once. So it is after every sequence of edits each of which is about
nodes that those before it have made (`Dom.linked_ofEdits`).
-/

namespace HtmlWalk.Html

/-! ## Edits that fit -/

/-- Whether a place is one of the first `n` nodes, or the document. -/
def Place.Within (n : Nat) : Place → Prop
  | document => True
  | children id | contents id => id < n

/-- Whether an item is one of the first `n` nodes, or characters. -/
def Item.Within (n : Nat) : Item → Prop
  | node id => id < n
  | text _ => True

/-- Whether an edit is about the first `n` nodes only, and leaves the children of the document where
they are. -/
def Edit.Fits (n : Nat) : Edit → Prop
  | line _ | mode _ | doctype _ | element .. | comment _ | instruction .. => True
  | append place item => place.Within n ∧ item.Within n
  | insertBefore sibling item => sibling < n ∧ item.Within n
  | foster table below item => table < n ∧ below < n ∧ item.Within n
  | addAttrs target _ => target < n
  | detach target => target < n
  | moveChildren source target => source ≠ .document ∧ source.Within n ∧ target.Within n

theorem Place.Within.mono {p : Place} {m n : Nat} (h : p.Within m) (hmn : m ≤ n) : p.Within n := by
  cases p with
  | document => trivial
  | children id | contents id => exact Nat.lt_of_lt_of_le h hmn

namespace Dom

variable {d : Dom} {id x : NodeId} {p q : Place}

/-! ## Links -/

@[simp] theorem parent?_skip (d : Dom) (x : NodeId) : d.skip.parent? x = d.parent? x := by
  simp [parent?]

@[simp] theorem list_skip (d : Dom) (p : Place) : d.skip.list p = d.list p := by
  cases p with
  | document => rfl
  | children id | contents id => simp [list]

theorem size_update (d : Dom) (id : NodeId) (k : Slot → Slot) :
    (d.update id k).nodes.size = d.nodes.size := by
  simp [update]

theorem parent?_make (d : Dom) (c : Content) (p : Option Place) (x : NodeId) :
    (d.make c p).parent? x = if x = d.nodes.size then p else d.parent? x := by
  simp only [parent?, slot?_make]
  split <;> rfl

theorem parent?_setParent (d : Dom) (id : NodeId) (p : Option Place) (x : NodeId) :
    (d.setParent id p).parent? x =
      if x = id then (d.slot? id).bind fun _ => p else d.parent? x := by
  simp only [parent?, setParent, slot?_update]
  split
  · cases d.slot? id <;> rfl
  · rfl

@[simp] theorem size_setParent (d : Dom) (id : NodeId) (p : Option Place) :
    (d.setParent id p).nodes.size = d.nodes.size :=
  size_update d id _

@[simp] theorem list_setParent (d : Dom) (id : NodeId) (parent : Option Place) (p : Place) :
    (d.setParent id parent).list p = d.list p := by
  cases p with
  | document => rfl
  | children x | contents x =>
    simp only [list, setParent, slot?_update]
    split
    · next h => subst h; cases d.slot? x <;> rfl
    · rfl

theorem list_updateList_eq (d : Dom) (p q : Place) (k : Array NodeId → Array NodeId) :
    (d.updateList p k).list q = if q = p ∧ d.hasPlace p then k (d.list p) else d.list q := by
  by_cases hq : q = p
  · subst hq
    by_cases hplace : d.hasPlace q = true
    · rw [if_pos ⟨rfl, hplace⟩, list_updateList hplace]
    · rw [if_neg fun h => hplace h.2]
      cases q with
      | document => exact absurd rfl hplace
      | children id | contents id =>
        have hs : d.slot? id = none := by simpa [hasPlace] using hplace
        simp [list, updateList, slot?_update, hs]
  · rw [if_neg fun h => hq h.1]
    cases p with
    | document =>
      cases q with
      | document => exact absurd rfl hq
      | children x | contents x => rfl
    | children id | contents id =>
      cases q with
      | document => rfl
      | children x | contents x =>
        simp only [list, updateList, slot?_update]
        split
        · next h =>
          subst h
          first | exact absurd rfl hq | (cases d.slot? x <;> rfl)
        · rfl

/-- A change to what a node is touches neither places nor links. -/
theorem list_update {k : Slot → Slot} (hc : ∀ s, (k s).children = s.children)
    (ht : ∀ s, (k s).contents = s.contents) (d : Dom) (id : NodeId) (p : Place) :
    (d.update id k).list p = d.list p := by
  cases p with
  | document => rfl
  | children x | contents x =>
    simp only [list, slot?_update]
    split
    · next h => subst h; cases d.slot? x <;> simp [hc, ht]
    · rfl

theorem parent?_update {k : Slot → Slot} (hk : ∀ s, (k s).parent = s.parent) (d : Dom)
    (id x : NodeId) : (d.update id k).parent? x = d.parent? x := by
  simp only [parent?, slot?_update]
  split
  · next h => subst h; cases d.slot? x <;> simp [hk]
  · rfl

theorem isSome_slot?_of_parent? (h : d.parent? x = some p) : (d.slot? x).isSome := by
  obtain ⟨s, hs, -⟩ := Option.bind_eq_some_iff.1 h
  simp [hs]

theorem isSome_slot?_of_isMovable (h : d.isMovable id = true) : (d.slot? id).isSome := by
  cases hs : d.slot? id with
  | none => simp [isMovable, content?, hs] at h
  | some s => rfl

theorem isSome_slot?_update (d : Dom) (id x : NodeId) (k : Slot → Slot) :
    ((d.update id k).slot? x).isSome = (d.slot? x).isSome := by
  rw [slot?_update]
  split
  · next h => subst h; rw [Option.isSome_map]
  · rfl

theorem isSome_slot?_updateList (d : Dom) (p : Place) (k : Array NodeId → Array NodeId)
    (x : NodeId) : ((d.updateList p k).slot? x).isSome = (d.slot? x).isSome := by
  cases p with
  | document => rfl
  | children id | contents id => exact isSome_slot?_update d id x _

theorem isSome_slot?_unlink (d : Dom) (id x : NodeId) :
    ((d.unlink id).slot? x).isSome = (d.slot? x).isSome := by
  unfold unlink
  split
  · rw [setParent, isSome_slot?_update, isSome_slot?_updateList]
  · rfl

theorem size_unlink (d : Dom) (id : NodeId) : (d.unlink id).nodes.size = d.nodes.size := by
  unfold unlink
  split
  · rw [size_setParent, size_updateList]
  · rfl

theorem parent?_unlink (hx : x ≠ id) : (d.unlink id).parent? x = d.parent? x := by
  unfold unlink
  split
  · rw [parent?_setParent, parent?_updateList, if_neg hx]
  · rfl

/-! ## The invariant -/

/-- Nodes and places know each other. -/
structure Linked (d : Dom) : Prop where
  /-- What stands in a place has its link there. -/
  parent? : ∀ p x, x ∈ d.list p → d.parent? x = some p
  /-- It stands there once. -/
  nodup : ∀ p, (d.list p).toList.Nodup
  /-- Links are to nodes that have been made. -/
  within : ∀ x p, d.parent? x = some p → p.Within d.nodes.size

namespace Linked

variable {e : Dom}

theorem empty : ({} : Dom).Linked where
  parent? p x hx := by cases p <;> simp [list, Dom.slot?] at hx
  nodup p := by cases p <;> simp [list, Dom.slot?]
  within x p hp := by simp [Dom.parent?, Dom.slot?] at hp

theorem lt_size (h : d.Linked) (hx : x ∈ d.list p) : x < d.nodes.size :=
  lt_size_of_parent? (h.parent? p x hx)

theorem notMem (h : d.Linked) (hx : d.parent? x = none) (p : Place) : x ∉ d.list p := fun hmem => by
  rw [h.parent? p x hmem] at hx
  cases hx

/-- A document with the same places and links. -/
theorem of_eq (h : d.Linked) (hlist : ∀ p, e.list p = d.list p)
    (hparent : ∀ x, e.parent? x = d.parent? x) (hsize : d.nodes.size ≤ e.nodes.size) :
    e.Linked where
  parent? p x hx := by
    rw [hlist] at hx
    rw [hparent, h.parent? p x hx]
  nodup p := by rw [hlist]; exact h.nodup p
  within x p hp := by
    rw [hparent] at hp
    exact (h.within x p hp).mono hsize

theorem skip (h : d.Linked) : d.skip.Linked :=
  h.of_eq (fun p => list_skip d p) (fun x => parent?_skip d x) (by simp [Dom.skip])

/-- A document in which one more node stands in a place. -/
theorem of_put (h : d.Linked) (hlist : ∀ q, e.list q = d.list q ∨
      q = p ∧ (e.list q).toList.Perm (id :: (d.list q).toList))
    (hparent : ∀ x, e.parent? x = if x = id then some p else d.parent? x)
    (hid : ∀ q, id ∉ d.list q) (hp : p.Within d.nodes.size)
    (hsize : d.nodes.size ≤ e.nodes.size) : e.Linked where
  parent? q x hx := by
    have hold : x ∈ d.list q → e.parent? x = some q := by
      intro hx
      have hne : x ≠ id := by
        rintro rfl
        exact hid q hx
      rw [hparent, if_neg hne, h.parent? q x hx]
    rcases hlist q with hq | ⟨rfl, hq⟩
    · exact hold (hq ▸ hx)
    · rcases List.mem_cons.1 (hq.subset (Array.mem_toList_iff.2 hx)) with rfl | hx
      · rw [hparent, if_pos rfl]
      · exact hold (Array.mem_toList_iff.1 hx)
  nodup q := by
    rcases hlist q with hq | ⟨-, hq⟩
    · rw [hq]; exact h.nodup q
    · refine hq.nodup_iff.2 (List.nodup_cons.2 ⟨fun hmem => ?_, h.nodup q⟩)
      exact hid q (Array.mem_toList_iff.1 hmem)
  within x q hq := by
    rw [hparent] at hq
    split at hq
    · cases hq; exact hp.mono hsize
    · exact (h.within x q hq).mono hsize

/-- A way to put a node into a list: somewhere, or nowhere. -/
def Puts (id : NodeId) (k : Array NodeId → Array NodeId) : Prop :=
  ∀ xs, k xs = xs ∨ (k xs).toList.Perm (id :: xs.toList)

theorem puts_push (id : NodeId) : Puts id (·.push id) := fun xs =>
  .inr (by simp)

theorem puts_insertIdxIfInBounds (id : NodeId) (i : Nat) :
    Puts id (·.insertIdxIfInBounds i id) := by
  rintro ⟨xs⟩
  dsimp only
  rw [List.insertIdxIfInBounds_toArray]
  rcases Nat.lt_or_ge xs.length i with hi | hi
  · exact .inl (by rw [List.insertIdx_of_length_lt hi])
  · exact .inr (List.perm_insertIdx id xs hi)

theorem list_updateList_puts {k : Array NodeId → Array NodeId} (hk : Puts id k) (d : Dom)
    (p q : Place) : (d.updateList p k).list q = d.list q ∨
      q = p ∧ ((d.updateList p k).list q).toList.Perm (id :: (d.list q).toList) := by
  rw [list_updateList_eq]
  split
  · next hq =>
    obtain ⟨rfl, -⟩ := hq
    exact (hk (d.list q)).imp_right fun hperm => ⟨rfl, hperm⟩
  · exact .inl rfl

/-- A node that stands nowhere is put into a place. -/
theorem put (h : d.Linked) {k : Array NodeId → Array NodeId} (hk : Puts id k)
    (hid : ∀ q, id ∉ d.list q) (hslot : (d.slot? id).isSome) (hp : p.Within d.nodes.size) :
    ((d.updateList p k).setParent id (some p)).Linked := by
  refine h.of_put (fun q => ?_) (fun x => ?_) hid hp ?_
  · rw [list_setParent]
    exact list_updateList_puts hk d p q
  · rw [parent?_setParent, parent?_updateList]
    obtain ⟨s, hs⟩ := Option.isSome_iff_exists.1 ((isSome_slot?_updateList d p k id).trans hslot)
    rw [hs]
    rfl
  · simp [Dom.setParent, size_update]

/-- A new node is put into a place. -/
theorem make (h : d.Linked) {k : Array NodeId → Array NodeId} (hk : Puts d.nodes.size k)
    (hp : p.Within d.nodes.size) (c : Content) :
    ((d.updateList p k).make c (some p)).Linked := by
  have hid : ∀ q, d.nodes.size ∉ d.list q := fun q hq => Nat.lt_irrefl _ (h.lt_size hq)
  refine h.of_put (fun q => ?_) (fun x => ?_) hid hp ?_
  · rw [list_make]
    exact list_updateList_puts hk d p q
  · rw [parent?_make, size_updateList, parent?_updateList]
  · simp [Dom.make]

/-- A new node that stands nowhere. -/
theorem make_none (h : d.Linked) (c : Content) : (d.make c none).Linked := by
  refine h.of_eq (fun p => list_make d c none p) (fun x => ?_) (by simp [Dom.make])
  rw [parent?_make]
  split
  · next hx =>
    rw [Dom.parent?, slot?_of_size_le (Nat.le_of_eq hx.symm)]
    rfl
  · rfl

theorem update (h : d.Linked) {k : Slot → Slot} (hc : ∀ s, (k s).children = s.children)
    (ht : ∀ s, (k s).contents = s.contents) (hp : ∀ s, (k s).parent = s.parent) (id : NodeId) :
    (d.update id k).Linked :=
  h.of_eq (list_update hc ht d id) (parent?_update hp d id) (Nat.le_of_eq (size_update d id k).symm)

theorem extendText (h : d.Linked) (id : NodeId) (value : String) :
    (d.extendText id value).Linked := by
  refine h.update ?_ ?_ ?_ id <;> intro s <;> split <;> rfl

theorem addAttrs (h : d.Linked) (id : NodeId) (attrs : List Attribute) :
    (d.addAttrs id attrs).Linked := by
  refine h.update ?_ ?_ ?_ id <;> intro s <;> split <;> rfl

/-- Only the node itself is taken out, wherever it stands. -/
theorem list_unlink (h : d.Linked) (id : NodeId) (q : Place) :
    ((d.unlink id).list q).toList = (d.list q).toList.erase id := by
  unfold Dom.unlink
  cases hpos : d.position? id with
  | none =>
    refine (List.erase_of_not_mem fun hq => ?_).symm
    rw [Dom.position?, h.parent? q id (Array.mem_toList_iff.1 hq)] at hpos
    simp at hpos
    exact hpos (Array.mem_toList_iff.1 hq)
  | some at_ =>
    obtain ⟨p, i⟩ := at_
    obtain ⟨hparent, hi⟩ := position?_eq_some_iff.1 hpos
    obtain ⟨hlt, hget, -⟩ := idxOf?_eq_some_iff.1 hi
    have hplace : d.hasPlace p = true := hasPlace_of_mem (hget ▸ Array.getElem_mem hlt)
    dsimp only
    rw [list_setParent, list_updateList_eq]
    by_cases hq : q = p
    · subst hq
      have herase := (h.nodup q).erase_getElem i (by simpa using hlt)
      rw [Array.getElem_toList, hget] at herase
      rw [if_pos ⟨rfl, hplace⟩, Array.toList_eraseIdxIfInBounds, herase]
    · rw [if_neg fun hqp => hq hqp.1, List.erase_of_not_mem]
      intro hmem
      have := h.parent? q id (Array.mem_toList_iff.1 hmem)
      rw [hparent] at this
      exact hq (Option.some.inj this).symm

theorem mem_list_unlink (h : d.Linked) {id x : NodeId} {q : Place} :
    x ∈ (d.unlink id).list q ↔ x ≠ id ∧ x ∈ d.list q := by
  rw [← Array.mem_toList_iff, h.list_unlink, (h.nodup q).mem_erase_iff, Array.mem_toList_iff]

/-- A node that is taken out of its place stands nowhere. -/
theorem unlink (h : d.Linked) (id : NodeId) :
    (d.unlink id).Linked ∧ ∀ p, id ∉ (d.unlink id).list p := by
  have hwithin : ∀ q, (d.unlink id).parent? id = some q → d.parent? id = some q := by
    intro q hq
    unfold Dom.unlink at hq
    split at hq
    · rw [parent?_setParent, if_pos rfl, Option.bind_fun_none] at hq
      cases hq
    · exact hq
  refine ⟨⟨fun q x hx => ?_, fun q => ?_, fun x q hq => ?_⟩,
    fun q hq => (h.mem_list_unlink.1 hq).1 rfl⟩
  · obtain ⟨hne, hx⟩ := h.mem_list_unlink.1 hx
    rw [parent?_unlink hne, h.parent? q x hx]
  · rw [h.list_unlink]
    exact (h.nodup q).erase id
  · rw [size_unlink]
    by_cases hx : x = id
    · exact h.within x q (hx ▸ hwithin q (hx ▸ hq))
    · exact h.within x q (parent?_unlink hx ▸ hq)

/-! ## Edits -/

theorem appendText (h : d.Linked) (hp : p.Within d.nodes.size) (value : String) :
    (d.appendText p value).Linked := by
  unfold Dom.appendText
  dsimp only
  split
  · exact h.make (puts_push _) hp _
  · exact h.skip

theorem append (h : d.Linked) (hp : p.Within d.nodes.size) (item : Item) :
    (d.append p item).Linked := by
  cases item with
  | node id =>
    rw [Dom.append]
    split
    · next hok =>
      simp only [Bool.and_eq_true, Option.isNone_iff_eq_none] at hok
      exact (h.put (puts_push id) (h.notMem hok.2) (isSome_slot?_of_isMovable hok.1.2) hp).skip
    · exact h.skip
  | text value =>
    rw [Dom.append]
    split
    · split
      · exact (h.extendText _ value).skip
      · exact h.appendText hp value
    · exact h.appendText hp value

theorem insertText (h : d.Linked) (hp : p.Within d.nodes.size) (i : Nat) (value : String) :
    (d.insertText p i value).Linked :=
  h.make (puts_insertIdxIfInBounds _ i) hp _

theorem insertBefore (h : d.Linked) (sibling : NodeId) (item : Item) :
    (d.insertBefore sibling item).Linked := by
  unfold Dom.insertBefore
  cases hpos : d.position? sibling with
  | none => exact h.skip
  | some at_ =>
    obtain ⟨p, i⟩ := at_
    have hp := h.within sibling p (position?_eq_some_iff.1 hpos).1
    cases item with
    | node id =>
      dsimp only
      split
      · next hmovable =>
        obtain ⟨hlinked, hid⟩ := h.unlink id
        have hslot : ((d.unlink id).slot? id).isSome := by
          rw [isSome_slot?_unlink]
          exact isSome_slot?_of_isMovable hmovable
        have hsize : (d.unlink id).nodes.size = d.nodes.size := size_unlink d id
        exact (hlinked.put (puts_insertIdxIfInBounds id i) hid hslot (hsize ▸ hp)).skip
      · exact h.skip
    | text value =>
      dsimp only
      split
      · split
        · exact (h.extendText _ value).skip
        · exact h.insertText hp i value
      · exact h.insertText hp i value

/-- Links that are set one after the other. -/
theorem parent?_foldl_setParent (d : Dom) (ids : List NodeId) (p : Option Place) (x : NodeId) :
    (ids.foldl (fun d id => d.setParent id p) d).parent? x =
      if x ∈ ids then (d.slot? x).bind fun _ => p else d.parent? x := by
  induction ids generalizing d with
  | nil => simp
  | cons id ids ih =>
    rw [List.foldl_cons, ih, parent?_setParent]
    by_cases hx : x = id
    · subst hx
      have hbind : ((d.setParent x p).slot? x).bind (fun _ => p) = (d.slot? x).bind fun _ => p := by
        simp only [Dom.setParent, slot?_update]
        cases d.slot? x <;> rfl
      simp [hbind]
    · have hslot : (d.setParent id p).slot? x = d.slot? x := by
        simp [Dom.setParent, slot?_update, hx]
      simp [hx, hslot]

theorem list_foldl_setParent (d : Dom) (ids : List NodeId) (parent : Option Place) (p : Place) :
    (ids.foldl (fun d id => d.setParent id parent) d).list p = d.list p := by
  induction ids generalizing d with
  | nil => rfl
  | cons id ids ih => rw [List.foldl_cons, ih, list_setParent]

theorem size_foldl_setParent (d : Dom) (ids : List NodeId) (p : Option Place) :
    (ids.foldl (fun d id => d.setParent id p) d).nodes.size = d.nodes.size := by
  induction ids generalizing d with
  | nil => rfl
  | cons id ids ih => rw [List.foldl_cons, ih, size_setParent]

/-- A place that is emptied. -/
theorem mem_list_clear {source : Place} : x ∈ (d.updateList source fun _ => #[]).list q ↔
    q ≠ source ∧ x ∈ d.list q := by
  rw [list_updateList_eq]
  by_cases hq : q = source
  · subst hq
    by_cases hplace : d.hasPlace q = true
    · simp [hplace]
    · rw [if_neg fun h => hplace h.2]
      simp only [ne_eq, not_true_eq_false, false_and, iff_false]
      exact fun hx => hplace (hasPlace_of_mem hx)
  · simp [hq]

/-- What stands in a place was moved there, or it stood there before and was not moved. -/
theorem list_moveChildren (d : Dom) (source target q : Place) :
    (d.moveChildren source target).list q = (d.updateList source fun _ => #[]).list q ∨
      q = target ∧ (d.moveChildren source target).list q =
        (d.updateList source fun _ => #[]).list q ++ d.list source := by
  unfold Dom.moveChildren
  rw [← Array.foldl_toList, list_foldl_setParent, list_updateList_eq]
  split
  · next hq => exact .inr ⟨hq.1, by rw [hq.1]⟩
  · exact .inl rfl

theorem size_moveChildren (d : Dom) (source target : Place) :
    (d.moveChildren source target).nodes.size = d.nodes.size := by
  unfold Dom.moveChildren
  rw [← Array.foldl_toList, size_foldl_setParent, size_updateList, size_updateList]

theorem parent?_moveChildren (h : d.Linked) (source target : Place) (x : NodeId) :
    (d.moveChildren source target).parent? x =
      if x ∈ d.list source then some target else d.parent? x := by
  unfold Dom.moveChildren
  rw [← Array.foldl_toList, parent?_foldl_setParent, parent?_updateList, parent?_updateList]
  by_cases hx : x ∈ d.list source
  · have hslot := isSome_slot?_of_parent? (h.parent? source x hx)
    rw [← isSome_slot?_updateList d source fun _ => #[],
      ← isSome_slot?_updateList _ target (· ++ d.list source)] at hslot
    obtain ⟨s, hs⟩ := Option.isSome_iff_exists.1 hslot
    rw [if_pos (Array.mem_toList_iff.2 hx), if_pos hx, hs]
    rfl
  · rw [if_neg (mt Array.mem_toList_iff.1 hx), if_neg hx]

theorem moveChildren (h : d.Linked) {source target : Place} (ht : target.Within d.nodes.size) :
    (d.moveChildren source target).Linked := by
  have hlist := list_moveChildren d source target
  have hcleared : ∀ q, ((d.updateList source fun _ => #[]).list q).toList.Nodup := by
    intro q
    rw [list_updateList_eq]
    split
    · exact List.nodup_nil
    · exact h.nodup q
  have hold : ∀ q x, x ∈ (d.updateList source fun _ => #[]).list q →
      d.parent? x = some q ∧ x ∉ d.list source := by
    intro q x hx
    obtain ⟨hq, hx⟩ := mem_list_clear.1 hx
    refine ⟨h.parent? q x hx, fun hx' => hq ?_⟩
    exact Option.some.inj ((h.parent? q x hx).symm.trans (h.parent? source x hx'))
  refine ⟨fun q x hx => ?_, fun q => ?_, fun x q hq => ?_⟩
  · rw [h.parent?_moveChildren]
    rcases hlist q with hq | ⟨rfl, hq⟩
    · obtain ⟨hparent, hx⟩ := hold q x (hq ▸ hx)
      rw [if_neg hx, hparent]
    · rw [hq, Array.mem_append] at hx
      rcases hx with hx | hx
      · obtain ⟨hparent, hx⟩ := hold q x hx
        rw [if_neg hx, hparent]
      · rw [if_pos hx]
  · rcases hlist q with hq | ⟨rfl, hq⟩
    · rw [hq]; exact hcleared q
    · rw [hq, Array.toList_append, List.nodup_append']
      refine ⟨hcleared q, h.nodup source, fun x hx hx' => ?_⟩
      exact (hold q x (Array.mem_toList_iff.1 hx)).2 (Array.mem_toList_iff.1 hx')
  · rw [size_moveChildren]
    rw [h.parent?_moveChildren] at hq
    split at hq
    · cases hq; exact ht
    · exact h.within x q hq

/-- **Edits keep nodes and places in step.** -/
theorem apply (h : d.Linked) {e : Edit} (he : e.Fits d.nodes.size) : (d.apply e).Linked := by
  cases e with
  | line n => exact h.skip
  | mode m => exact h.skip.of_eq (fun p => by cases p <;> rfl) (fun _ => rfl) (Nat.le_refl _)
  | doctype dt => exact h.make (p := .document) (puts_push _) trivial _
  | element | comment | instruction => exact h.make_none _
  | append place item => exact h.append he.1 item
  | insertBefore sibling item => exact h.insertBefore sibling item
  | foster table below item =>
    rw [Dom.apply, Dom.foster]
    split
    · exact h.insertBefore table item
    · exact h.append (p := .children below) he.2.1 item
  | addAttrs target attrs => exact (h.addAttrs target attrs).skip
  | detach target =>
    rw [Dom.apply]
    split
    · exact (h.unlink target).1.skip
    · exact h.skip
  | moveChildren source target => exact (h.moveChildren he.2.2).skip

end Linked

/-! ## Sequences of edits -/

theorem size_append (d : Dom) (p : Place) (item : Item) :
    (d.append p item).nodes.size = d.nodes.size + 1 := by
  have hskip : ∀ e : Dom, e.nodes.size = d.nodes.size → e.skip.nodes.size = d.nodes.size + 1 := by
    intro e he
    simp [Dom.skip, he]
  have hnew : ∀ value, (d.appendText p value).nodes.size = d.nodes.size + 1 := by
    intro value
    unfold appendText
    dsimp only
    split
    · simp [Dom.make]
    · exact hskip d rfl
  cases item with
  | node id =>
    rw [append]
    split
    · exact hskip _ (by simp)
    · exact hskip d rfl
  | text value =>
    rw [append]
    split
    · split
      · exact hskip _ (size_update ..)
      · exact hnew value
    · exact hnew value

theorem size_insertBefore (d : Dom) (sibling : NodeId) (item : Item) :
    (d.insertBefore sibling item).nodes.size = d.nodes.size + 1 := by
  have hskip : ∀ e : Dom, e.nodes.size = d.nodes.size → e.skip.nodes.size = d.nodes.size + 1 := by
    intro e he
    simp [Dom.skip, he]
  have hnew : ∀ p i value, (d.insertText p i value).nodes.size = d.nodes.size + 1 := by
    intro p i value
    simp [insertText, Dom.make]
  unfold insertBefore
  split
  · exact hskip d rfl
  · split
    · split
      · exact hskip _ (by simp [size_unlink])
      · exact hskip d rfl
    · split
      · split
        · exact hskip _ (size_update ..)
        · exact hnew _ _ _
      · exact hnew _ _ _

/-- Each edit adds one entry. -/
theorem size_apply (d : Dom) (e : Edit) : (d.apply e).nodes.size = d.nodes.size + 1 := by
  cases e with
  | append p item => exact size_append d p item
  | insertBefore sibling item => exact size_insertBefore d sibling item
  | foster table below item =>
    rw [apply, foster]
    split
    · exact size_insertBefore d table item
    · exact size_append d (.children below) item
  | addAttrs target attrs => simp [apply, Dom.skip, addAttrs, size_update]
  | detach target =>
    rw [apply]
    split <;> simp [Dom.skip, size_unlink]
  | moveChildren source target =>
    simp [apply, Dom.skip, Linked.size_moveChildren]
  | _ => simp [apply, Dom.skip, Dom.make]

theorem ofEdits_concat (es : List Edit) (e : Edit) :
    ofEdits (es ++ [e]) = (ofEdits es).apply e := by
  simp [ofEdits]

theorem size_foldl_apply (es : List Edit) (d : Dom) :
    (es.foldl apply d).nodes.size = d.nodes.size + es.length := by
  induction es generalizing d with
  | nil => rfl
  | cons e es ih =>
    rw [List.foldl_cons, ih, size_apply, List.length_cons]
    omega

theorem size_ofEdits (es : List Edit) : (ofEdits es).nodes.size = es.length :=
  (size_foldl_apply es {}).trans (Nat.zero_add _)

/-- The edits of a sequence fit if each is about what those before it have made. -/
def Fit (es : List Edit) : Prop := ∀ (i : Nat) (e : Edit), es[i]? = some e → e.Fits i

theorem Fit.of_concat {es : List Edit} {e : Edit} (h : Fit (es ++ [e])) :
    Fit es ∧ e.Fits es.length :=
  ⟨fun i x hx => h i x (by rw [List.getElem?_append_left (List.getElem?_eq_some_iff.1 hx).1, hx]),
    h es.length e (by simp)⟩

theorem linked_ofEdits {es : List Edit} (h : Fit es) : (ofEdits es).Linked := by
  induction es using List.reverseRecOn with
  | nil => exact .empty
  | append_singleton es e ih =>
    obtain ⟨hes, he⟩ := h.of_concat
    rw [ofEdits_concat]
    exact (ih hes).apply (by rwa [size_ofEdits])

end Dom

end HtmlWalk.Html
