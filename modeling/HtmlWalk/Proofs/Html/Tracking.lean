import HtmlWalk.Html.Tracked
import HtmlWalk.Proofs.Html.Edits

/-!
# Tracking is an observer

A tracked document does more on an edit than a plain one: it looks for the text that the edit has
made, and for this and for what is out of place in a table it takes links out of nodes; and it keeps
a layout mode of its own.

**Theorem (`ofEdits_transparent`).** After any sequence of edits, the document in a tracked document
is the one that a plain document makes of the same edits, and so is the layout mode. Links that are
taken out are put back, and recording touches nothing but the lines.
-/

namespace HtmlWalk.Html

namespace Tracked

/-! ## Looking up and recording -/

theorem parentOf_eq (t : Tracked) (id : NodeId) : t.parentOf id = (t.dom.parent? id, t) := by
  simp only [parentOf, Dom.setParent_parent?]

/-- Recording changes the lines and nothing else. -/
theorem recordText_eq (t : Tracked) (id : NodeId) :
    ∃ lines, t.recordText id = { t with lines } := by
  unfold recordText
  split
  · split
    · exact ⟨t.lines, rfl⟩
    · exact ⟨_, rfl⟩
  · exact ⟨t.lines, rfl⟩

theorem recordLast_eq (t : Tracked) (place : Place) :
    ∃ lines, t.recordLast place = { t with lines } := by
  unfold recordLast
  split
  · exact t.recordText_eq _
  · exact ⟨t.lines, rfl⟩

theorem recordBefore_eq (t : Tracked) (sibling : NodeId) :
    ∃ lines, t.recordBefore sibling = { t with lines } := by
  unfold recordBefore
  rw [parentOf_eq]
  dsimp only
  split
  · exact ⟨t.lines, rfl⟩
  · split
    · split
      · exact t.recordText_eq _
      · exact ⟨t.lines, rfl⟩
    · exact ⟨t.lines, rfl⟩

/-! ## One edit -/

theorem append_eq (t : Tracked) (place : Place) (item : Item) :
    ∃ lines, t.append place item = { t.edit (.append place item) with lines } := by
  cases item with
  | node id => exact ⟨t.lines, rfl⟩
  | text value => exact recordLast_eq _ place

theorem insertBefore_eq (t : Tracked) (sibling : NodeId) (item : Item) :
    ∃ lines, t.insertBefore sibling item = { t.edit (.insertBefore sibling item) with lines } := by
  cases item with
  | node id => exact ⟨t.lines, rfl⟩
  | text value => exact recordBefore_eq _ sibling

/-- What is out of place in a table is put by the edit that a plain document would choose. -/
theorem foster_eq (t : Tracked) (table below : NodeId) (item : Item) :
    ∃ lines, t.foster table below item = { t.edit (.foster table below item) with lines } := by
  unfold foster
  rw [parentOf_eq]
  have hdom : t.dom.apply (.foster table below item) =
      if (t.dom.parent? table).isSome then t.dom.insertBefore table item
      else t.dom.append (.children below) item := rfl
  unfold edit
  rw [hdom]
  dsimp only
  split
  · exact t.insertBefore_eq table item
  · exact t.append_eq (.children below) item

/-- What an edit does besides recording. -/
theorem apply_eq (t : Tracked) (e : Edit) :
    ∃ lines, t.apply e = ⟨t.dom.apply e, e.line?.getD t.line, e.mode?.getD t.mode, lines⟩ := by
  cases e with
  | append place item => exact t.append_eq place item
  | insertBefore sibling item => exact t.insertBefore_eq sibling item
  | foster table below item => exact t.foster_eq table below item
  | _ => exact ⟨_, rfl⟩

theorem dom_apply (t : Tracked) (e : Edit) : (t.apply e).dom = t.dom.apply e := by
  obtain ⟨lines, h⟩ := t.apply_eq e
  rw [h]

theorem line_apply (t : Tracked) (e : Edit) : (t.apply e).line = e.line?.getD t.line := by
  obtain ⟨lines, h⟩ := t.apply_eq e
  rw [h]

theorem mode_apply (t : Tracked) (e : Edit) : (t.apply e).mode = e.mode?.getD t.mode := by
  obtain ⟨lines, h⟩ := t.apply_eq e
  rw [h]

/-! ## Sequences of edits -/

/-- A tracked document goes on as the document in it does. -/
theorem foldl_apply (es : List Edit) {t : Tracked} (ht : t.mode = t.dom.mode) :
    (es.foldl apply t).dom = es.foldl Dom.apply t.dom ∧
      (es.foldl apply t).mode = (es.foldl Dom.apply t.dom).mode := by
  induction es generalizing t with
  | nil => exact ⟨rfl, ht⟩
  | cons e es ih =>
    have hmode : (t.apply e).mode = (t.apply e).dom.mode := by
      rw [mode_apply, dom_apply, Dom.mode_apply, ht]
    simpa only [List.foldl_cons, dom_apply] using ih hmode

end Tracked

theorem dom_ofEdits (es : List Edit) : (Tracked.ofEdits es).dom = Dom.ofEdits es :=
  (Tracked.foldl_apply es rfl).1

/-- **Tracking is an observer.** The document and the layout mode are those of a plain document
after the same edits. Looking up where a node stands, and recording, change neither. -/
theorem ofEdits_transparent (es : List Edit) :
    (Tracked.ofEdits es).dom = Dom.ofEdits es ∧
    (Tracked.ofEdits es).mode = (Dom.ofEdits es).mode ∧
    (∀ (t : Tracked) id, t.parentOf id = (t.dom.parent? id, t)) ∧
    (∀ (t : Tracked) place, (t.recordLast place).dom = t.dom) ∧
    ∀ (t : Tracked) sibling, (t.recordBefore sibling).dom = t.dom := by
  obtain ⟨hdom, hmode⟩ := Tracked.foldl_apply es (t := {}) rfl
  refine ⟨hdom, hmode, Tracked.parentOf_eq, fun t place => ?_, fun t sibling => ?_⟩
  · obtain ⟨lines, h⟩ := t.recordLast_eq place
    rw [h]
  · obtain ⟨lines, h⟩ := t.recordBefore_eq sibling
    rw [h]

end HtmlWalk.Html
