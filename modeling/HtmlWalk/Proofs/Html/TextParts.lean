import HtmlWalk.Proofs.Html.Linked
import HtmlWalk.Proofs.Html.Renaming

/-!
# Characters in two parts

Characters can be put somewhere at once or in two parts: the second part is added to the text that
the first one has made, or to which it was added. The documents then differ in their entries, of
which the one has more, but not in their nodes (`Dom.Alike`).

**Theorem (`Dom.append_text_append`, `Dom.foster_text_foster`).** This is so at the end of a place,
and for what is put before a table. Between the two parts the document may be given entries without
a node.
-/

namespace HtmlWalk.Html

namespace Dom

/-! ## Documents that differ in empty entries -/

/-- Two documents have the same nodes in the same places. One of them may have more entries. -/
structure Alike (d d' : Dom) : Prop where
  /-- The nodes are the same. -/
  slot? : d'.slot? = d.slot?
  /-- So are the children of the document. -/
  top : d'.top = d.top
  /-- The layout mode is the same. -/
  mode : d'.mode = d.mode

namespace Alike

variable {d d' d'' e : Dom} {p : Place}

protected theorem refl (d : Dom) : Alike d d := ⟨rfl, rfl, rfl⟩

protected theorem trans (h : Alike d d') (h' : Alike d' d'') : Alike d d'' :=
  ⟨h'.slot?.trans h.slot?, h'.top.trans h.top, h'.mode.trans h.mode⟩

theorem skip (h : Alike d d') : Alike d d'.skip :=
  ⟨(funext fun id => slot?_skip d' id).trans h.slot?, h.top, h.mode⟩

theorem skip_left (d : Dom) : Alike d.skip d :=
  ⟨(funext fun id => slot?_skip d id).symm, rfl, rfl⟩

section

variable (h : Alike d d')
include h

theorem parent? (id : NodeId) : d'.parent? id = d.parent? id := by
  rw [Dom.parent?, Dom.parent?, h.slot?]

theorem text? (id : NodeId) : d'.text? id = d.text? id := by
  rw [Dom.text?, Dom.text?, content?, content?, h.slot?]

theorem list (p : Place) : d'.list p = d.list p := by
  cases p with
  | document => exact h.top
  | children id | contents id => rw [Dom.list, Dom.list, h.slot?]

theorem hasPlace (p : Place) : d'.hasPlace p = d.hasPlace p := by
  cases p with
  | document => rfl
  | children id | contents id => rw [Dom.hasPlace, Dom.hasPlace, h.slot?]

theorem position? (id : NodeId) : d'.position? id = d.position? id := by
  simp only [Dom.position?, h.parent?, h.list]

end

end Alike

theorem Renamed.alike {f : NodeId → NodeId} {d d' d'' : Dom} (h : Renamed f d d')
    (h' : Alike d' d'') : Renamed f d d'' :=
  ⟨fun id => by rw [h'.slot?, h.slot?], h'.top.trans h.top, h'.mode.trans h.mode⟩

/-! ## Characters in two parts -/

/-- A text to which characters are added in two parts. -/
theorem extendText_extendText {d e : Dom} {id : NodeId} {x y : String}
    (h : Alike (d.extendText id x) e) : Alike (d.extendText id (x ++ y)) (e.extendText id y) := by
  refine ⟨funext fun j => ?_, h.top, h.mode⟩
  unfold extendText at h ⊢
  rw [slot?_update, slot?_update, h.slot?, slot?_update, slot?_update, if_pos rfl]
  split
  · cases d.slot? id with
    | none => rfl
    | some s =>
      cases s with
      | mk content => cases content <;> simp [String.append_assoc]
  · rfl

/-- A new text to which more characters are added. -/
theorem extendText_make {d e : Dom} {x y : String} {p : Option Place}
    (h : Alike (d.make (.text x) p) e) :
    Alike (d.make (.text (x ++ y)) p) (e.extendText d.nodes.size y) := by
  refine ⟨funext fun j => ?_, h.top, h.mode⟩
  unfold extendText
  rw [slot?_update, h.slot?, slot?_make, slot?_make, slot?_make, if_pos rfl]
  split <;> rfl

theorem isSome_text?_make {d e : Dom} {x : String} {p : Option Place}
    (h : Alike (d.make (.text x) p) e) : (e.text? d.nodes.size).isSome := by
  rw [h.text?, isSome_text?_iff, kind?_make, if_pos rfl]
  rfl

theorem text?_extendText {d : Dom} {id : NodeId} {x : String} (h : (d.text? id).isSome) :
    ((d.extendText id x).text? id).isSome := by
  rw [isSome_text?_iff] at h ⊢
  rw [(Rearranges.extendText d id x).kind?, h]

theorem list_extendText (d : Dom) (id : NodeId) (x : String) (p : Place) :
    (d.extendText id x).list p = d.list p := by
  refine list_update ?_ ?_ d id p <;> intro s <;> split <;> rfl

theorem parent?_extendText (d : Dom) (id : NodeId) (x : String) (j : NodeId) :
    (d.extendText id x).parent? j = d.parent? j := by
  refine parent?_update ?_ d id j
  intro s
  split <;> rfl

/-- The text at the end of a place. -/
def lastText? (d : Dom) (p : Place) : Option NodeId :=
  (d.list p).back?.filter fun id => (d.text? id).isSome

theorem lastText?_eq_some_iff {d : Dom} {p : Place} {id : NodeId} : d.lastText? p = some id ↔
    (d.list p).back? = some id ∧ (d.text? id).isSome := by
  simp [lastText?, Option.filter_eq_some_iff]

theorem append_text (d : Dom) (p : Place) (value : String) :
    d.append p (.text value) = match d.lastText? p with
      | some last => (d.extendText last value).skip
      | none => d.appendText p value := by
  rw [append, lastText?]
  cases (d.list p).back? with
  | none => rfl
  | some last =>
    by_cases htext : (d.text? last).isSome = true
    · simp [Option.filter, htext]
    · simp [Option.filter, htext]

/-- Characters at the end of a place, in two parts. -/
theorem append_text_append {d e : Dom} {p : Place} {x y : String}
    (h : Alike (d.append p (.text x)) e) :
    Alike (d.append p (.text (x ++ y))) (e.append p (.text y)) := by
  rw [append_text] at h ⊢
  cases hlast : d.lastText? p with
  | some last =>
    rw [hlast] at h
    have hextend : Alike (d.extendText last x) e := (Alike.refl _).skip.trans h
    obtain ⟨hback, htext⟩ := lastText?_eq_some_iff.1 hlast
    have hlast' : e.lastText? p = some last := by
      refine lastText?_eq_some_iff.2 ⟨?_, ?_⟩
      · rw [hextend.list, list_extendText, hback]
      · rw [hextend.text?]
        exact text?_extendText htext
    rw [append_text, hlast']
    exact (Alike.skip_left _).trans (extendText_extendText hextend).skip
  | none =>
    -- The first part makes a text, unless there is no such place.
    rw [hlast] at h
    unfold appendText at h ⊢
    dsimp only at h ⊢
    by_cases hplace : d.hasPlace p = true
    · rw [if_pos hplace] at h ⊢
      have hmake := extendText_make (y := y) h
      have htext := isSome_text?_make h
      rw [size_updateList] at hmake htext
      have hlast' : e.lastText? p = some d.nodes.size := by
        refine lastText?_eq_some_iff.2 ⟨?_, htext⟩
        rw [h.list, list_make, list_updateList hplace, Array.back?_push]
      rw [append_text, hlast']
      exact hmake.skip
    · rw [if_neg hplace] at h ⊢
      have hplace' : ¬ e.hasPlace p = true := by
        rw [h.hasPlace, (Alike.skip (.refl d)).hasPlace]
        exact hplace
      have hlast' : e.lastText? p = none := by
        refine Option.eq_none_iff_forall_not_mem.2 fun j hj => hplace' ?_
        have hmem : j ∈ e.list p := Array.mem_of_back? (lastText?_eq_some_iff.1 hj).1
        exact hasPlace_of_mem hmem
      rw [append_text, hlast']
      unfold appendText
      dsimp only
      rw [if_neg hplace']
      exact h.skip

/-- The text right before a position. -/
def textBefore? (d : Dom) (p : Place) (i : Nat) : Option NodeId :=
  (if i = 0 then none else (d.list p)[i - 1]?).filter fun id => (d.text? id).isSome

theorem insertBefore_text {d : Dom} {sibling : NodeId} {p : Place} {i : Nat}
    (hpos : d.position? sibling = some (p, i)) (value : String) :
    d.insertBefore sibling (.text value) = match d.textBefore? p i with
      | some before => (d.extendText before value).skip
      | none => d.insertText p i value := by
  simp only [insertBefore, hpos, textBefore?]
  cases (if i = 0 then none else (d.list p)[i - 1]?) with
  | none => rfl
  | some before =>
    by_cases htext : (d.text? before).isSome = true
    · simp [Option.filter, htext]
    · simp [Option.filter, htext]

/-- Characters before a node, in two parts. -/
theorem insertBefore_text_insertBefore {d e : Dom} {sibling : NodeId} {x y : String}
    (h : Alike (d.insertBefore sibling (.text x)) e) :
    Alike (d.insertBefore sibling (.text (x ++ y))) (e.insertBefore sibling (.text y)) := by
  cases hpos : d.position? sibling with
  | none =>
    have hinsert : ∀ z, d.insertBefore sibling (.text z) = d.skip := fun z => by
      simp only [insertBefore, hpos]
    rw [hinsert] at h ⊢
    have hpos' : e.position? sibling = none := by
      rw [h.position?, (Alike.skip (.refl d)).position?, hpos]
    simp only [insertBefore, hpos']
    exact h.skip
  | some at_ =>
    obtain ⟨p, i⟩ := at_
    obtain ⟨hparent, hi⟩ := position?_eq_some_iff.1 hpos
    rw [insertBefore_text hpos] at h ⊢
    cases hbefore : d.textBefore? p i with
    | some before =>
      rw [hbefore] at h
      have hextend : Alike (d.extendText before x) e := (Alike.refl _).skip.trans h
      have hlist : e.list p = d.list p := by rw [hextend.list, list_extendText]
      have hpos' : e.position? sibling = some (p, i) := by
        refine position?_eq_some_iff.2 ⟨?_, by rw [hlist, hi]⟩
        rw [hextend.parent?, parent?_extendText, hparent]
      obtain ⟨hget, htext⟩ := Option.filter_eq_some_iff.1 hbefore
      have hbefore' : e.textBefore? p i = some before := by
        refine Option.filter_eq_some_iff.2 ⟨by rw [hlist, hget], ?_⟩
        rw [hextend.text?]
        exact text?_extendText htext
      rw [insertBefore_text hpos', hbefore']
      exact (Alike.skip_left _).trans (extendText_extendText hextend).skip
    | none =>
      rw [hbefore] at h
      unfold insertText at h ⊢
      have hlt := lt_size_of_parent? hparent
      have hplace : d.hasPlace p = true := by
        obtain ⟨hsize, hget, -⟩ := idxOf?_eq_some_iff.1 hi
        exact hasPlace_of_mem (hget ▸ Array.getElem_mem hsize)
      obtain ⟨hat, hafter⟩ := idxOf?_insertIdxIfInBounds hi (Nat.ne_of_gt hlt)
      have hlist : e.list p = (d.list p).insertIdxIfInBounds i d.nodes.size := by
        rw [h.list, list_make, list_updateList hplace]
      have hpos' : e.position? sibling = some (p, i + 1) := by
        refine position?_eq_some_iff.2 ⟨?_, by rw [hlist, hafter]⟩
        rw [h.parent?, parent?_make_of_lt (by rwa [size_updateList]), parent?_updateList, hparent]
      have hmake := extendText_make (y := y) h
      have htext := isSome_text?_make h
      rw [size_updateList] at hmake htext
      have hbefore' : e.textBefore? p (i + 1) = some d.nodes.size := by
        refine Option.filter_eq_some_iff.2 ⟨?_, htext⟩
        rw [if_neg (Nat.succ_ne_zero i), hlist, Nat.add_sub_cancel, hat]
      rw [insertBefore_text hpos', hbefore']
      exact hmake.skip

/-- Characters do not change where nodes stand. -/
theorem parent?_append_text {d : Dom} {id : NodeId} (hid : id < d.nodes.size) (p : Place)
    (value : String) : (d.append p (.text value)).parent? id = d.parent? id := by
  rw [append_text]
  split
  · rw [parent?_skip, parent?_extendText]
  · unfold appendText
    dsimp only
    split
    · rw [parent?_make_of_lt (by rwa [size_updateList]), parent?_updateList]
    · rw [parent?_skip]

theorem parent?_insertBefore_text {d : Dom} {id : NodeId} (hid : id < d.nodes.size)
    (sibling : NodeId) (value : String) :
    (d.insertBefore sibling (.text value)).parent? id = d.parent? id := by
  cases hpos : d.position? sibling with
  | none => simp only [insertBefore, hpos, parent?_skip]
  | some at_ =>
    obtain ⟨p, i⟩ := at_
    rw [insertBefore_text hpos]
    split
    · rw [parent?_skip, parent?_extendText]
    · unfold insertText
      dsimp only
      rw [parent?_make_of_lt (by rwa [size_updateList]), parent?_updateList]

theorem parent?_foster_text {d : Dom} {id : NodeId} (hid : id < d.nodes.size)
    (table below : NodeId) (value : String) :
    (d.foster table below (.text value)).parent? id = d.parent? id := by
  unfold foster
  split
  · exact parent?_insertBefore_text hid table value
  · exact parent?_append_text hid _ value

/-- Characters before a table, or in its stead, in two parts. -/
theorem foster_text_foster {d e : Dom} {table below : NodeId} {x y : String}
    (htable : table < d.nodes.size) (h : Alike (d.foster table below (.text x)) e) :
    Alike (d.foster table below (.text (x ++ y))) (e.foster table below (.text y)) := by
  have hparent : e.parent? table = d.parent? table := by
    rw [h.parent?]
    exact parent?_foster_text htable table below x
  unfold foster at h ⊢
  rw [hparent]
  split
  · next hp =>
    rw [if_pos hp] at h
    exact insertBefore_text_insertBefore h
  · next hp =>
    rw [if_neg hp] at h
    exact append_text_append h

end Dom

end HtmlWalk.Html
