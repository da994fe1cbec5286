import Mathlib.Data.Option.Basic
import HtmlWalk.Html.Dom

/-!
# What edits do to nodes

An edit is made of a few steps: a node is changed, a place gets other nodes, an entry is added. Here
it is said what a node and a place are after each of them, so that statements about edits need not
look into the list of nodes.

Most edits only rearrange (`Dom.Rearranges`): nodes are moved, characters and attributes are added,
but there are the same nodes of the same kinds. The others make one node (`Dom.Makes`). Characters
do the one or the other; if they make a text, it stands where the one who put them there finds it,
at the end of the place (`Dom.append_text_cases`) or right before the sibling
(`Dom.insertBefore_text_cases`).
-/

namespace HtmlWalk.Html

/-! ## Positions in a list -/

theorem idxOf?_eq_some_iff {xs : Array NodeId} {x i : Nat} : xs.idxOf? x = some i ↔
    ∃ h : i < xs.size, xs[i] = x ∧ ∀ j (hj : j < i), xs[j] ≠ x := by
  rw [Array.idxOf?_eq_map_finIdxOf?_val, Option.map_eq_some_iff]
  constructor
  · rintro ⟨k, hk, rfl⟩
    obtain ⟨hx, hbefore⟩ := Array.finIdxOf?_eq_some_iff.1 hk
    exact ⟨k.isLt, hx, fun j hj => hbefore ⟨j, by omega⟩ hj⟩
  · rintro ⟨hi, hx, hbefore⟩
    exact ⟨⟨i, hi⟩, Array.finIdxOf?_eq_some_iff.2 ⟨hx, fun j hj => hbefore j hj⟩, rfl⟩

/-- An item put right before the first occurrence of another one stands right before it. -/
theorem idxOf?_insertIdxIfInBounds {xs : Array NodeId} {x a i : Nat} (h : xs.idxOf? x = some i)
    (hne : a ≠ x) : (xs.insertIdxIfInBounds i a)[i]? = some a ∧
      (xs.insertIdxIfInBounds i a).idxOf? x = some (i + 1) := by
  obtain ⟨hi, hx, hbefore⟩ := idxOf?_eq_some_iff.1 h
  have hle : i ≤ xs.size := Nat.le_of_lt hi
  have hins : xs.insertIdxIfInBounds i a = xs.insertIdx i a hle := by
    unfold Array.insertIdxIfInBounds
    rw [dif_pos hle]
  rw [hins]
  have hsize := Array.size_insertIdx (a := a) hle
  refine ⟨?_, idxOf?_eq_some_iff.2 ⟨by omega, ?_, ?_⟩⟩
  · rw [Array.getElem?_eq_getElem (by omega), Array.getElem_insertIdx_self]
  · rw [Array.getElem_insertIdx, dif_neg (by omega), dif_neg (by omega)]
    exact hx
  · intro j hj
    rw [Array.getElem_insertIdx]
    split
    · next hji => exact hbefore j hji
    · rwa [dif_pos (by omega)]

namespace Dom

variable {d : Dom} {id j : NodeId} {place : Place}

/-! ## Nodes -/

theorem slot?_of_size_le (h : d.nodes.size ≤ id) : d.slot? id = none := by
  simp [slot?, h]

theorem lt_size_of_slot? {s : Slot} (h : d.slot? id = some s) : id < d.nodes.size := by
  by_contra hle
  rw [slot?_of_size_le (Nat.le_of_not_lt hle)] at h
  cases h

theorem slot?_update (d : Dom) (id j : NodeId) (f : Slot → Slot) :
    (d.update id f).slot? j = if j = id then (d.slot? id).map f else d.slot? j := by
  unfold slot? update
  by_cases h : j = id
  · subst h
    rw [if_pos rfl, Array.getElem?_modify, if_pos rfl]
    cases d.nodes[j]? <;> rfl
  · rw [if_neg h, Array.getElem?_modify, if_neg (Ne.symm h)]

theorem slot?_make (d : Dom) (c : Content) (p : Option Place) (j : NodeId) :
    (d.make c p).slot? j =
      if j = d.nodes.size then some { content := c, parent := p } else d.slot? j := by
  unfold slot? make
  rw [Array.getElem?_push]
  split <;> rfl

@[simp] theorem slot?_skip (d : Dom) (j : NodeId) : d.skip.slot? j = d.slot? j := by
  unfold slot? skip
  rw [Array.getElem?_push]
  split
  · next h => rw [h, Array.getElem?_size]; rfl
  · rfl

/-- A step that leaves the node as it is does nothing. -/
theorem update_of_slot {f : Slot → Slot} (h : ∀ s, d.slot? id = some s → f s = s) :
    d.update id f = d := by
  have hnodes : d.nodes.modify id (·.map f) = d.nodes := by
    apply Array.ext (by simp)
    intro i hi hi'
    rw [Array.getElem_modify]
    split
    · next hid =>
      subst hid
      cases hs : d.nodes[id] with
      | none => rfl
      | some s => exact congrArg some (h s (by simp [slot?, hi', hs]))
    · rfl
  unfold update
  rw [hnodes]

theorem update_update (d : Dom) (id : NodeId) (f g : Slot → Slot) :
    (d.update id f).update id g = d.update id (g ∘ f) := by
  have hnodes : (d.nodes.modify id (·.map f)).modify id (·.map g) =
      d.nodes.modify id (·.map (g ∘ f)) := by
    apply Array.ext (by simp)
    intro i hi hi'
    simp only [Array.getElem_modify]
    split <;> simp
  unfold update
  rw [hnodes]

/-- A link that is taken out of a node and put back is as it was. -/
theorem setParent_parent? (d : Dom) (id : NodeId) :
    (d.setParent id none).setParent id (d.parent? id) = d := by
  unfold setParent
  rw [update_update]
  apply update_of_slot
  intro s hs
  simp [parent?, hs]

/-! ## Places -/

@[simp] theorem list_make (d : Dom) (c : Content) (p : Option Place) (place : Place) :
    (d.make c p).list place = d.list place := by
  cases place with
  | document => rfl
  | children id | contents id =>
    simp only [list, slot?_make]
    split
    · next h => simp [slot?_of_size_le (Nat.le_of_eq h.symm)]
    · rfl

theorem list_updateList (h : d.hasPlace place = true) (f : Array NodeId → Array NodeId) :
    (d.updateList place f).list place = f (d.list place) := by
  cases place with
  | document => rfl
  | children id | contents id =>
    obtain ⟨s, hs⟩ := Option.isSome_iff_exists.1 h
    simp [list, updateList, slot?_update, hs]

@[simp] theorem parent?_updateList (d : Dom) (place : Place) (f : Array NodeId → Array NodeId)
    (j : NodeId) : (d.updateList place f).parent? j = d.parent? j := by
  cases place with
  | document => rfl
  | children id | contents id =>
    simp only [parent?, updateList, slot?_update]
    split
    · next h => subst h; cases d.slot? j <;> rfl
    · rfl

@[simp] theorem size_updateList (d : Dom) (place : Place) (f : Array NodeId → Array NodeId) :
    (d.updateList place f).nodes.size = d.nodes.size := by
  cases place <;> simp [updateList, update]

theorem parent?_make_of_lt (h : j < d.nodes.size) (c : Content) (p : Option Place) :
    (d.make c p).parent? j = d.parent? j := by
  simp [parent?, slot?_make, Nat.ne_of_lt h]

/-- A place with a node in it exists. -/
theorem hasPlace_of_mem (h : j ∈ d.list place) : d.hasPlace place = true := by
  cases place with
  | document => rfl
  | children id | contents id =>
    cases hs : d.slot? id with
    | none => simp [list, hs] at h
    | some s => simp [hasPlace, hs]

theorem position?_eq_some_iff {i : Nat} : d.position? id = some (place, i) ↔
    d.parent? id = some place ∧ (d.list place).idxOf? id = some i := by
  unfold position?
  rw [Option.bind_eq_some_iff]
  simp only [Option.map_eq_some_iff, Prod.mk.injEq]
  constructor
  · rintro ⟨p, hp, k, hk, rfl, rfl⟩
    exact ⟨hp, hk⟩
  · rintro ⟨hp, hk⟩
    exact ⟨place, hp, i, hk, rfl, rfl⟩

theorem lt_size_of_parent? (h : d.parent? id = some place) : id < d.nodes.size := by
  obtain ⟨s, hs, -⟩ := Option.bind_eq_some_iff.1 h
  exact lt_size_of_slot? hs

/-! ## Kinds -/

end Dom

/-- The kind of the node that becomes of a node under construction, if one does. -/
def Content.kind? : Content → Option Kind
  | document => some .document
  | doctype _ => some .doctype
  | element .. => some .element
  | comment _ => some .comment
  | instruction .. => none
  | text _ => some .text

namespace Dom

variable {d d' d'' : Dom} {id j : NodeId} {place : Place}

/-- The kind of a node. -/
def kind? (d : Dom) (id : NodeId) : Option Kind := (d.content? id).bind Content.kind?

theorem isSome_text?_iff : (d.text? id).isSome = true ↔ d.kind? id = some .text := by
  unfold text? kind?
  rcases d.content? id with _ | (_ | _ | _ | _ | _ | _) <;> simp [Content.kind?]

theorem kind?_of_slot? {s : Slot} (h : d.slot? id = some s) : d.kind? id = s.content.kind? := by
  rw [kind?, content?, h]
  rfl

theorem kind?_eq_none_of_size_le (h : d.nodes.size ≤ id) : d.kind? id = none := by
  simp [kind?, content?, slot?_of_size_le h]

theorem kind?_update {f : Slot → Slot} (hf : ∀ s, (f s).content.kind? = s.content.kind?) :
    (d.update id f).kind? j = d.kind? j := by
  simp only [kind?, content?, slot?_update]
  split
  · next h =>
    subst h
    cases d.slot? j <;> simp [hf]
  · rfl

theorem kind?_make (d : Dom) (c : Content) (p : Option Place) (j : NodeId) :
    (d.make c p).kind? j = if j = d.nodes.size then c.kind? else d.kind? j := by
  simp only [kind?, content?, slot?_make]
  split <;> rfl

/-! ## Edits that make no node -/

/-- Two documents have the same nodes of the same kinds, in whatever arrangement, and the same
layout mode. -/
structure Rearranges (d d' : Dom) : Prop where
  /-- The layout mode is the same. -/
  mode : d'.mode = d.mode
  /-- The nodes are of the same kinds. -/
  kind? : ∀ j, d'.kind? j = d.kind? j

namespace Rearranges

protected theorem refl (d : Dom) : Rearranges d d := ⟨rfl, fun _ => rfl⟩

protected theorem trans (h : Rearranges d d') (h' : Rearranges d' d'') : Rearranges d d'' :=
  ⟨h'.mode.trans h.mode, fun j => (h'.kind? j).trans (h.kind? j)⟩

theorem update {f : Slot → Slot} (hf : ∀ s, (f s).content.kind? = s.content.kind?) :
    Rearranges d (d.update id f) :=
  ⟨rfl, fun _ => kind?_update hf⟩

theorem skip (h : Rearranges d d') : Rearranges d d'.skip :=
  ⟨h.mode, fun j => by rw [← h.kind? j, Dom.kind?, Dom.kind?, content?, content?, slot?_skip]⟩

theorem updateList (h : Rearranges d d') (place : Place) (f : Array NodeId → Array NodeId) :
    Rearranges d (d'.updateList place f) := by
  cases place with
  | document => exact ⟨h.mode, h.kind?⟩
  | children id | contents id => exact h.trans (update fun _ => rfl)

theorem setParent (h : Rearranges d d') (id : NodeId) (parent : Option Place) :
    Rearranges d (d'.setParent id parent) :=
  h.trans (update fun _ => rfl)

theorem unlink (h : Rearranges d d') (id : NodeId) : Rearranges d (d'.unlink id) := by
  unfold Dom.unlink
  split
  · exact (h.updateList _ _).setParent id none
  · exact h

theorem extendText (d : Dom) (id : NodeId) (value : String) :
    Rearranges d (d.extendText id value) := by
  apply update
  intro s
  split
  · next h => rw [h]; rfl
  · rfl

theorem addAttrs (d : Dom) (id : NodeId) (attrs : List Attribute) :
    Rearranges d (d.addAttrs id attrs) := by
  apply update
  intro s
  split
  · next h => rw [h]; rfl
  · rfl

theorem moveChildren (d : Dom) (source target : Place) :
    Rearranges d (d.moveChildren source target) := by
  unfold Dom.moveChildren
  have hlists := ((Rearranges.refl d).updateList source fun _ => #[]).updateList target
    (· ++ d.list source)
  refine Array.foldl_induction (fun _ e => Rearranges d e) hlists ?_
  intro i e he
  exact he.setParent _ _

theorem append_node (d : Dom) (place : Place) (id : NodeId) :
    Rearranges d (d.append place (.node id)) := by
  rw [Dom.append]
  split
  · exact (((Rearranges.refl d).updateList _ _).setParent _ _).skip
  · exact (Rearranges.refl d).skip

theorem insertBefore_node (d : Dom) (sibling id : NodeId) :
    Rearranges d (d.insertBefore sibling (.node id)) := by
  unfold Dom.insertBefore
  split
  · exact (Rearranges.refl d).skip
  · dsimp only
    split
    · exact ((((Rearranges.refl d).unlink id).updateList _ _).setParent _ _).skip
    · exact (Rearranges.refl d).skip

end Rearranges

/-! ## Edits that make a node -/

/-- The second document has one more node, of the next name and of this kind. -/
structure Makes (d : Dom) (k : Option Kind) (d' : Dom) : Prop where
  /-- The layout mode is the same. -/
  mode : d'.mode = d.mode
  /-- The new node is of this kind, and the others are of the kinds that they were. -/
  kind? : ∀ j, d'.kind? j = if j = d.nodes.size then k else d.kind? j

theorem makes_make (d : Dom) (c : Content) (p : Option Place) : Makes d c.kind? (d.make c p) :=
  ⟨rfl, kind?_make d c p⟩

theorem makes_updateList_make (d : Dom) (place : Place) (f : Array NodeId → Array NodeId)
    (c : Content) (p : Option Place) : Makes d c.kind? ((d.updateList place f).make c p) := by
  have hlist := (Rearranges.refl d).updateList place f
  refine ⟨hlist.mode, fun j => ?_⟩
  rw [kind?_make, size_updateList, hlist.kind?]

/-- Characters at the end of a place make no node, or a text, which stands there then. -/
theorem append_text_cases (d : Dom) (place : Place) (value : String) :
    Rearranges d (d.append place (.text value)) ∨
      Makes d (some .text) (d.append place (.text value)) ∧
        ((d.append place (.text value)).list place).back? = some d.nodes.size := by
  have hnew : Rearranges d (d.appendText place value) ∨
      Makes d (some .text) (d.appendText place value) ∧
        ((d.appendText place value).list place).back? = some d.nodes.size := by
    unfold appendText
    by_cases hplace : d.hasPlace place = true
    · right
      simp only [if_pos hplace]
      refine ⟨makes_updateList_make d place _ (.text value) _, ?_⟩
      rw [list_make, list_updateList hplace, Array.back?_push]
    · left
      simp only [if_neg hplace]
      exact (Rearranges.refl d).skip
  rw [append]
  split
  · next last hlast =>
    split
    · exact .inl (Rearranges.extendText d last value).skip
    · exact hnew
  · exact hnew

/-- Characters before a node make no node, or a text, which stands right before it then. -/
theorem insertBefore_text_cases (d : Dom) (sibling : NodeId) (value : String) :
    Rearranges d (d.insertBefore sibling (.text value)) ∨
      Makes d (some .text) (d.insertBefore sibling (.text value)) ∧
        ∃ place i, (d.insertBefore sibling (.text value)).position? sibling = some (place, i + 1) ∧
          ((d.insertBefore sibling (.text value)).list place)[i]? = some d.nodes.size := by
  unfold insertBefore
  cases hpos : d.position? sibling with
  | none => exact .inl (Rearranges.refl d).skip
  | some at_ =>
    obtain ⟨place, i⟩ := at_
    obtain ⟨hparent, hi⟩ := position?_eq_some_iff.1 hpos
    have hlt := lt_size_of_parent? hparent
    have hplace : d.hasPlace place = true := by
      obtain ⟨hsize, hget, -⟩ := idxOf?_eq_some_iff.1 hi
      exact hasPlace_of_mem (hget ▸ Array.getElem_mem hsize)
    have hnew : Makes d (some .text) (d.insertText place i value) ∧
        (d.insertText place i value).position? sibling = some (place, i + 1) ∧
          ((d.insertText place i value).list place)[i]? = some d.nodes.size := by
      unfold insertText
      obtain ⟨hat, hafter⟩ := idxOf?_insertIdxIfInBounds hi (Nat.ne_of_gt hlt)
      have hlist := list_updateList hplace (·.insertIdxIfInBounds i d.nodes.size)
      refine ⟨makes_updateList_make d place _ (.text value) _, position?_eq_some_iff.2 ⟨?_, ?_⟩, ?_⟩
      · rw [parent?_make_of_lt (by rwa [size_updateList]), parent?_updateList, hparent]
      · rw [list_make, hlist, hafter]
      · rw [list_make, hlist, hat]
    dsimp only
    split
    · next before hbefore =>
      split
      · exact .inl (Rearranges.extendText d before value).skip
      · exact .inr ⟨hnew.1, place, i, hnew.2⟩
    · exact .inr ⟨hnew.1, place, i, hnew.2⟩

/-! ## Documents -/

/-- No node is a document. -/
def HasNoDocument (d : Dom) : Prop := ∀ id, d.kind? id ≠ some .document

namespace HasNoDocument

theorem of_kind? (h : d.HasNoDocument) (hd : ∀ id, d'.kind? id = d.kind? id) :
    d'.HasNoDocument :=
  fun id => hd id ▸ h id

theorem of_makes (h : d.HasNoDocument) {k : Option Kind} (hd : d.Makes k d')
    (hk : k ≠ some .document) : d'.HasNoDocument := fun id => by
  rw [hd.kind? id]
  split
  · exact hk
  · exact h id

theorem append (h : d.HasNoDocument) (place : Place) (item : Item) :
    (d.append place item).HasNoDocument := by
  cases item with
  | node id => exact h.of_kind? (Rearranges.append_node d place id).kind?
  | text value =>
    rcases d.append_text_cases place value with hsame | ⟨hmakes, -⟩
    · exact h.of_kind? hsame.kind?
    · exact h.of_makes hmakes (by simp)

theorem insertBefore (h : d.HasNoDocument) (sibling : NodeId) (item : Item) :
    (d.insertBefore sibling item).HasNoDocument := by
  cases item with
  | node id => exact h.of_kind? (Rearranges.insertBefore_node d sibling id).kind?
  | text value =>
    rcases d.insertBefore_text_cases sibling value with hsame | ⟨hmakes, -⟩
    · exact h.of_kind? hsame.kind?
    · exact h.of_makes hmakes (by simp)

theorem apply (h : d.HasNoDocument) (e : Edit) : (d.apply e).HasNoDocument := by
  cases e with
  | line n => exact h.of_kind? (Rearranges.refl d).skip.kind?
  | mode m => exact h.of_kind? (Rearranges.refl d).skip.kind?
  | doctype dt =>
    refine h.of_makes (makes_updateList_make d .document (·.push d.nodes.size) (.doctype dt) _) ?_
    simp [Content.kind?]
  | element name attrs =>
    exact h.of_makes (d.makes_make (.element name attrs) none) (by simp [Content.kind?])
  | comment data => exact h.of_makes (d.makes_make (.comment data) none) (by simp [Content.kind?])
  | instruction target data =>
    exact h.of_makes (d.makes_make (.instruction target data) none) (by simp [Content.kind?])
  | append place item => exact h.append place item
  | insertBefore sibling item => exact h.insertBefore sibling item
  | foster table below item =>
    rw [Dom.apply, foster]
    split
    · exact h.insertBefore table item
    · exact h.append (.children below) item
  | addAttrs target attrs => exact h.of_kind? (Rearranges.addAttrs d target attrs).skip.kind?
  | detach target =>
    refine h.of_kind? (Rearranges.skip ?_).kind?
    split
    · exact (Rearranges.refl d).unlink target
    · exact .refl d
  | moveChildren source target =>
    exact h.of_kind? (Rearranges.moveChildren d source target).skip.kind?

end HasNoDocument

/-- **No edits make a document**: the only ones are the document under construction and those around
the contents of templates. -/
theorem hasNoDocument_ofEdits (es : List Edit) : (ofEdits es).HasNoDocument := by
  have hrun : ∀ d : Dom, d.HasNoDocument → (es.foldl apply d).HasNoDocument := by
    induction es with
    | nil => exact fun d hd => hd
    | cons e es ih => exact fun d hd => ih _ (hd.apply e)
  exact hrun {} fun id => by simp [kind?_eq_none_of_size_le (d := {}) (Nat.zero_le id)]

end Dom

/-! ## The line and the layout mode -/

/-- The line that an edit reports. -/
def Edit.line? : Edit → Option Nat
  | line n => some n
  | _ => none

/-- The layout mode that an edit sets. -/
def Edit.mode? : Edit → Option Mode
  | mode m => some m
  | _ => none

theorem Dom.mode_append (d : Dom) (place : Place) (item : Item) :
    (d.append place item).mode = d.mode := by
  cases item with
  | node id => exact (Rearranges.append_node d place id).mode
  | text value => exact (append_text_cases d place value).elim (·.mode) (·.1.mode)

theorem Dom.mode_insertBefore (d : Dom) (sibling : NodeId) (item : Item) :
    (d.insertBefore sibling item).mode = d.mode := by
  cases item with
  | node id => exact (Rearranges.insertBefore_node d sibling id).mode
  | text value => exact (insertBefore_text_cases d sibling value).elim (·.mode) (·.1.mode)

theorem Dom.mode_apply (d : Dom) (e : Edit) : (d.apply e).mode = e.mode?.getD d.mode := by
  cases e with
  | line | mode | doctype | element | comment | instruction => rfl
  | append place item => exact mode_append d place item
  | insertBefore sibling item => exact mode_insertBefore d sibling item
  | foster table below item =>
    rw [apply, foster]
    split
    · exact mode_insertBefore d table item
    · exact mode_append d (.children below) item
  | addAttrs target attrs => rfl
  | detach target =>
    rw [apply]
    split
    · exact ((Rearranges.refl d).unlink target).mode
    · rfl
  | moveChildren source target => exact (Rearranges.moveChildren d source target).mode

end HtmlWalk.Html
