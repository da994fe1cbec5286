import Mathlib.Data.List.InsertIdx
import Mathlib.Logic.Function.Basic
import HtmlWalk.Proofs.Html.Edits

/-!
# Documents with other names for their nodes

The name of a node is the number of the edit that made it, so two sequences of edits that make the
same document may call its nodes by other names. `Dom.Renamed f` relates two such documents: `f`
takes the names of the first to those of the second, which may have more entries.

**Theorem (`Dom.Renamed.apply`).** An edit, and the same edit with the new names in it, keep
documents so related. This takes that `f` maps no two names to one, and that it maps the name of the
next node to the name of the next node.
-/

namespace HtmlWalk.Html

/-! ## Renaming -/

/-- The place under its new name. -/
def Place.rename (f : NodeId → NodeId) : Place → Place
  | document => document
  | children id => children (f id)
  | contents id => contents (f id)

/-- The item under its new name. -/
def Item.rename (f : NodeId → NodeId) : Item → Item
  | node id => node (f id)
  | text value => text value

/-- The edit with the new names of the nodes in it. -/
def Edit.rename (f : NodeId → NodeId) : Edit → Edit
  | append place item => append (place.rename f) (item.rename f)
  | insertBefore sibling item => insertBefore (f sibling) (item.rename f)
  | foster table below item => foster (f table) (f below) (item.rename f)
  | addAttrs target attrs => addAttrs (f target) attrs
  | detach target => detach (f target)
  | moveChildren source target => moveChildren (source.rename f) (target.rename f)
  | e => e

/-- The node with the new names of those around it. -/
def Slot.rename (f : NodeId → NodeId) (s : Slot) : Slot :=
  { s with
    parent := s.parent.map (Place.rename f)
    children := s.children.map f
    contents := s.contents.map f }

theorem Place.rename_comp (f g : NodeId → NodeId) (p : Place) :
    (p.rename f).rename g = p.rename (g ∘ f) := by
  cases p <;> rfl

theorem Place.rename_id : Place.rename id = id := by
  funext p
  cases p <;> rfl

theorem Slot.rename_id : Slot.rename id = id := by
  funext s
  simp [rename, Place.rename_id]

theorem Slot.rename_comp (f g : NodeId → NodeId) (s : Slot) :
    (s.rename f).rename g = s.rename (g ∘ f) := by
  cases s with
  | mk content parent children contents =>
    cases parent <;> simp [rename, Place.rename_comp]

/-! ## Names in lists -/

theorem map_insertIdxIfInBounds (f : NodeId → NodeId) (xs : Array NodeId) (i x : Nat) :
    (xs.map f).insertIdxIfInBounds i (f x) = (xs.insertIdxIfInBounds i x).map f := by
  obtain ⟨xs⟩ := xs
  simp [List.map_insertIdx]

theorem map_eraseIdxIfInBounds (f : NodeId → NodeId) (xs : Array NodeId) (i : Nat) :
    (xs.map f).eraseIdxIfInBounds i = (xs.eraseIdxIfInBounds i).map f := by
  obtain ⟨xs⟩ := xs
  simp [List.eraseIdx_map]

theorem idxOf?_map {f : NodeId → NodeId} (hf : f.Injective) (xs : Array NodeId) (x : NodeId) :
    (xs.map f).idxOf? (f x) = xs.idxOf? x := by
  ext i
  rw [idxOf?_eq_some_iff, idxOf?_eq_some_iff]
  simp [hf.eq_iff]

namespace Dom

/-- The second document is the first one with new names for its nodes. It may have entries under
other names too. -/
structure Renamed (f : NodeId → NodeId) (d d' : Dom) : Prop where
  /-- The nodes are the same but for the names. -/
  slot? : ∀ id, d'.slot? (f id) = (d.slot? id).map (Slot.rename f)
  /-- So are the children of the document. -/
  top : d'.top = d.top.map f
  /-- The layout mode is the same. -/
  mode : d'.mode = d.mode

namespace Renamed

variable {f g : NodeId → NodeId} {d d' d'' : Dom}

protected theorem refl (d : Dom) : Renamed id d d :=
  ⟨fun _ => by simp [Slot.rename_id], by simp, rfl⟩

protected theorem trans (h : Renamed f d d') (h' : Renamed g d' d'') : Renamed (g ∘ f) d d'' where
  slot? id := by
    show d''.slot? (g (f id)) = _
    rw [h'.slot?, h.slot?, Option.map_map]
    congr 1
    funext s
    exact Slot.rename_comp f g s
  top := by rw [h'.top, h.top, Array.map_map]
  mode := h'.mode.trans h.mode

/-! ## Reading -/

section Reading

variable (h : Renamed f d d')
include h

theorem parent? (id : NodeId) : d'.parent? (f id) = (d.parent? id).map (Place.rename f) := by
  unfold Dom.parent?
  rw [h.slot?]
  cases d.slot? id <;> rfl

theorem content? (id : NodeId) : d'.content? (f id) = d.content? id := by
  unfold Dom.content?
  rw [h.slot?]
  cases d.slot? id <;> rfl

theorem text? (id : NodeId) : d'.text? (f id) = d.text? id := by
  unfold Dom.text?
  rw [h.content?]

theorem isMovable (id : NodeId) : d'.isMovable (f id) = d.isMovable id := by
  unfold Dom.isMovable
  rw [h.content?]

theorem hasPlace (p : Place) : d'.hasPlace (p.rename f) = d.hasPlace p := by
  cases p with
  | document => rfl
  | children id | contents id => simp [Dom.hasPlace, Place.rename, h.slot?]

theorem list (p : Place) : d'.list (p.rename f) = (d.list p).map f := by
  cases p with
  | document => exact h.top
  | children id | contents id =>
    simp only [Dom.list, Place.rename, h.slot?]
    cases d.slot? id <;> simp [Slot.rename]

theorem position? (hf : f.Injective) (id : NodeId) :
    d'.position? (f id) = (d.position? id).map fun (p, i) => (p.rename f, i) := by
  unfold Dom.position?
  rw [h.parent?]
  cases d.parent? id with
  | none => rfl
  | some p =>
    simp only [Option.map_some, Option.bind_some, h.list, idxOf?_map hf]
    cases (d.list p).idxOf? id <;> rfl

end Reading

/-! ## Writing -/

section Writing

variable (hf : f.Injective) (h : Renamed f d d')
include hf h

theorem update {k k' : Slot → Slot} (hk : ∀ s, k' (s.rename f) = (k s).rename f) (id : NodeId) :
    Renamed f (d.update id k) (d'.update (f id) k') where
  slot? j := by
    rw [slot?_update, slot?_update, h.slot?, h.slot?]
    by_cases hj : j = id
    · subst hj
      simp [Function.comp_def, hk]
    · rw [if_neg hj, if_neg (hf.ne hj)]
  top := h.top
  mode := h.mode

theorem updateList {k k' : Array NodeId → Array NodeId} (hk : ∀ xs, k' (xs.map f) = (k xs).map f)
    (p : Place) : Renamed f (d.updateList p k) (d'.updateList (p.rename f) k') := by
  cases p with
  | document => exact ⟨h.slot?, by simp [Dom.updateList, Place.rename, h.top, hk], h.mode⟩
  | children id | contents id => exact h.update hf (fun s => by simp [Slot.rename, hk]) id

theorem setParent (id : NodeId) (p : Option Place) :
    Renamed f (d.setParent id p) (d'.setParent (f id) (p.map (Place.rename f))) := by
  refine h.update hf (fun s => ?_) id
  rfl

theorem extendText (id : NodeId) (value : String) :
    Renamed f (d.extendText id value) (d'.extendText (f id) value) := by
  refine h.update hf (fun s => ?_) id
  cases s with
  | mk content => cases content <;> rfl

theorem addAttrs (id : NodeId) (attrs : List Attribute) :
    Renamed f (d.addAttrs id attrs) (d'.addAttrs (f id) attrs) := by
  refine h.update hf (fun s => ?_) id
  cases s with
  | mk content => cases content <;> rfl

omit hf in
theorem skip : Renamed f d.skip d'.skip :=
  ⟨fun id => by rw [slot?_skip, slot?_skip, h.slot?], h.top, h.mode⟩

theorem make (hnext : f d.nodes.size = d'.nodes.size) (c : Content) (p : Option Place) :
    Renamed f (d.make c p) (d'.make c (p.map (Place.rename f))) where
  slot? id := by
    rw [slot?_make, slot?_make, ← hnext, h.slot?]
    by_cases hid : id = d.nodes.size
    · rw [if_pos hid, if_pos (congrArg f hid)]
      simp [Slot.rename]
    · rw [if_neg hid, if_neg (hf.ne hid)]
  top := h.top
  mode := h.mode

theorem unlink (id : NodeId) : Renamed f (d.unlink id) (d'.unlink (f id)) := by
  unfold Dom.unlink
  rw [h.position? hf]
  cases d.position? id with
  | none => exact h
  | some at_ =>
    obtain ⟨p, i⟩ := at_
    exact (h.updateList hf (fun xs => map_eraseIdxIfInBounds f xs i) p).setParent hf id none

/-! ## Edits -/

theorem appendText (hnext : f d.nodes.size = d'.nodes.size) (p : Place) (value : String) :
    Renamed f (d.appendText p value) (d'.appendText (p.rename f) value) := by
  unfold Dom.appendText
  rw [h.hasPlace, ← hnext]
  split
  · refine (h.updateList hf (fun xs => ?_) p).make hf ?_ (.text value) (some p)
    · exact Array.map_push.symm
    · simpa using hnext
  · exact h.skip

theorem append (hnext : f d.nodes.size = d'.nodes.size) (p : Place) (item : Item) :
    Renamed f (d.append p item) (d'.append (p.rename f) (item.rename f)) := by
  cases item with
  | node id =>
    simp only [Dom.append, Item.rename, h.hasPlace, h.isMovable, h.parent?, Option.isNone_map]
    split
    · exact ((h.updateList hf (fun xs => Array.map_push.symm) p).setParent hf id (some p)).skip
    · exact h.skip
  | text value =>
    simp only [Dom.append, Item.rename, h.list, Array.back?_map]
    cases (d.list p).back? with
    | none => exact h.appendText hf hnext p value
    | some last =>
      simp only [Option.map_some, h.text?]
      split
      · exact (h.extendText hf last value).skip
      · exact h.appendText hf hnext p value

theorem insertText (hnext : f d.nodes.size = d'.nodes.size) (p : Place) (i : Nat) (value : String) :
    Renamed f (d.insertText p i value) (d'.insertText (p.rename f) i value) := by
  unfold Dom.insertText
  rw [← hnext]
  refine (h.updateList hf (fun xs => ?_) p).make hf ?_ (.text value) (some p)
  · exact map_insertIdxIfInBounds f xs i d.nodes.size
  · simpa using hnext

theorem insertBefore (hnext : f d.nodes.size = d'.nodes.size) (sibling : NodeId) (item : Item) :
    Renamed f (d.insertBefore sibling item) (d'.insertBefore (f sibling) (item.rename f)) := by
  unfold Dom.insertBefore
  rw [h.position? hf]
  cases d.position? sibling with
  | none => exact h.skip
  | some at_ =>
    obtain ⟨p, i⟩ := at_
    cases item with
    | node id =>
      simp only [Option.map_some, Item.rename, h.isMovable]
      split
      · exact (((h.unlink hf id).updateList hf
          (fun xs => map_insertIdxIfInBounds f xs i id) p).setParent hf id (some p)).skip
      · exact h.skip
    | text value =>
      simp only [Option.map_some, Item.rename, h.list, Array.getElem?_map]
      have hnew := h.insertText hf hnext p i value
      by_cases hi : i = 0
      · rw [if_pos hi, if_pos hi]
        exact hnew
      · rw [if_neg hi, if_neg hi]
        cases (d.list p)[i - 1]? with
        | none => exact hnew
        | some before =>
          simp only [Option.map_some, h.text?]
          split
          · exact (h.extendText hf before value).skip
          · exact hnew

theorem moveChildren (source target : Place) :
    Renamed f (d.moveChildren source target)
      (d'.moveChildren (source.rename f) (target.rename f)) := by
  unfold Dom.moveChildren
  rw [h.list]
  have hlists : Renamed f ((d.updateList source fun _ => #[]).updateList target (· ++ d.list source))
      ((d'.updateList (source.rename f) fun _ => #[]).updateList (target.rename f)
        (· ++ (d.list source).map f)) := by
    refine (h.updateList hf (fun _ => ?_) source).updateList hf (fun _ => ?_) target
    · simp
    · exact Array.map_append.symm
  dsimp only
  generalize (d.updateList source fun _ => #[]).updateList target _ = e at hlists ⊢
  generalize (d'.updateList (source.rename f) fun _ => #[]).updateList _ _ = e' at hlists ⊢
  rw [Array.foldl_map, ← Array.foldl_toList, ← Array.foldl_toList]
  generalize (d.list source).toList = ids
  induction ids generalizing e e' with
  | nil => exact hlists
  | cons id ids ih => exact ih _ _ (hlists.setParent hf id (some target))

/-- **Edits keep to the names.** -/
theorem apply (hnext : f d.nodes.size = d'.nodes.size) (e : Edit) :
    Renamed f (d.apply e) (d'.apply (e.rename f)) := by
  cases e with
  | line n => exact h.skip
  | mode m => exact ⟨h.skip.slot?, h.top, rfl⟩
  | doctype dt =>
    simp only [Dom.apply, Edit.rename, ← hnext]
    refine (h.updateList hf (fun xs => ?_) .document).make hf ?_ (.doctype dt) (some .document)
    · exact Array.map_push.symm
    · simpa using hnext
  | element name attrs => exact h.make hf hnext (.element name attrs) none
  | comment data => exact h.make hf hnext (.comment data) none
  | instruction target data => exact h.make hf hnext (.instruction target data) none
  | append p item => exact h.append hf hnext p item
  | insertBefore sibling item => exact h.insertBefore hf hnext sibling item
  | foster table below item =>
    simp only [Dom.apply, Edit.rename, Dom.foster, h.parent?, Option.isSome_map]
    split
    · exact h.insertBefore hf hnext table item
    · exact h.append hf hnext (.children below) item
  | addAttrs target attrs => exact (h.addAttrs hf target attrs).skip
  | detach target =>
    simp only [Dom.apply, Edit.rename, h.isMovable]
    split
    · exact (h.unlink hf target).skip
    · exact h.skip
  | moveChildren source target => exact (h.moveChildren hf source target).skip

end Writing

end Renamed

end Dom

end HtmlWalk.Html
