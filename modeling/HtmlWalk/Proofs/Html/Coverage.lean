import HtmlWalk.Proofs.Html.Tracking

/-!
# Every node gets a line

An element and a comment are recorded by the edit that makes them. A text has no edit of its own, so
there are as many ways to a text without a line as there are ways to put characters somewhere.

**Theorem (`Tracked.ofEdits_covers`).** After any sequence of edits in which lines count from one,
every element, comment and text has a line, and lines count from one.

The invariant (`Tracked.Covers`) is broken and mended within an edit that makes a node: after the
edit it holds but for the new node (`Tracked.CoversExcept`), which is then recorded. For characters
this needs that the text is found where it was put.
-/

namespace HtmlWalk.Html

namespace Tracked

variable {t t' : Tracked} {id : NodeId}

/-! ## The invariant -/

theorem line?_recordAt (t : Tracked) (id : NodeId) (n : Nat) (j : NodeId) :
    (t.recordAt id n).line? j = if id = j then some n else t.line? j := by
  unfold line? recordAt
  rw [Std.TreeMap.getElem?_insert]
  simp only [Std.compare_eq_iff_eq]

/-- Lines count from one, and every element, comment and text has one, but for the node `x`. -/
structure CoversExcept (x : NodeId) (t : Tracked) : Prop where
  /-- The line that has been read. -/
  line : 1 ≤ t.line
  /-- The lines of nodes. -/
  lines : ∀ j n, t.line? j = some n → 1 ≤ n
  /-- A node of a kind that has lines has one. -/
  covered : ∀ j k, j ≠ x → t.dom.kind? j = some k → k ≠ .doctype → (t.line? j).isSome = true

/-- Lines count from one, and every element, comment and text has one. -/
def Covers (t : Tracked) : Prop := ∀ x, t.CoversExcept x

theorem CoversExcept.covers (h : t.CoversExcept id)
    (hid : ∀ k, t.dom.kind? id = some k → k ≠ .doctype → (t.line? id).isSome = true) :
    t.Covers := fun _ => by
  refine ⟨h.line, h.lines, fun j k _ hk hne => ?_⟩
  by_cases hj : j = id
  · subst hj
    exact hid k hk hne
  · exact h.covered j k hj hk hne

theorem Covers.covered (h : t.Covers) {k : Kind} (hk : t.dom.kind? id = some k)
    (hne : k ≠ .doctype) : (t.line? id).isSome = true :=
  (h (id + 1)).covered id k (Nat.ne_of_lt (Nat.lt_succ_self id)) hk hne

theorem covers_empty : ({} : Tracked).Covers := fun _ => by
  refine ⟨Nat.le_refl 1, fun j n hn => ?_, fun j k _ hk _ => ?_⟩
  · simp [line?] at hn
  · rw [Dom.kind?_eq_none_of_size_le (Nat.zero_le j)] at hk
    cases hk

/-! ## Recording -/

theorem CoversExcept.recordAt (h : t.CoversExcept id) {n : Nat} (hn : 1 ≤ n) :
    (t.recordAt id n).Covers := fun _ => by
  refine ⟨h.line, fun j m hm => ?_, fun j k _ hk hne => ?_⟩
  · rw [line?_recordAt] at hm
    split at hm
    · cases hm
      exact hn
    · exact h.lines j m hm
  · rw [line?_recordAt]
    split
    · rfl
    · next hj => exact h.covered j k (Ne.symm hj) hk hne

/-- Recording the text that is missing mends the invariant. -/
theorem CoversExcept.recordText (h : t.CoversExcept id) (htext : t.dom.kind? id = some .text) :
    (t.recordText id).Covers := by
  obtain ⟨value, hvalue⟩ := Option.isSome_iff_exists.1 (Dom.isSome_text?_iff.2 htext)
  unfold Tracked.recordText
  rw [hvalue]
  dsimp only
  split
  · next hline => exact h.covers fun _ _ _ => hline
  · exact h.recordAt (Nat.le_max_right _ 1)

/-- Recording keeps the invariant, whatever is recorded. -/
theorem Covers.recordText (h : t.Covers) (id : NodeId) : (t.recordText id).Covers := by
  by_cases htext : t.dom.kind? id = some .text
  · exact (h id).recordText htext
  · have hnone : t.dom.text? id = none := by
      rw [← Option.not_isSome_iff_eq_none, Dom.isSome_text?_iff]
      exact htext
    unfold Tracked.recordText
    rw [hnone]
    exact h

theorem Covers.recordLast (h : t.Covers) (place : Place) : (t.recordLast place).Covers := by
  unfold Tracked.recordLast
  split
  · exact h.recordText _
  · exact h

theorem Covers.recordBefore (h : t.Covers) (sibling : NodeId) :
    (t.recordBefore sibling).Covers := by
  unfold Tracked.recordBefore
  rw [parentOf_eq]
  dsimp only
  split
  · exact h
  · split
    · split
      · exact h.recordText _
      · exact h
    · exact h

/-! ## Edits -/

theorem Covers.of_kind? (h : t.Covers) (hline : 1 ≤ t'.line) (hlines : t'.lines = t.lines)
    (hkind : ∀ j, t'.dom.kind? j = t.dom.kind? j) : t'.Covers := fun x => by
  have hline? : t'.line? = t.line? := by
    funext j
    rw [line?, line?, hlines]
  refine ⟨hline, fun j n hn => (h x).lines j n (hline? ▸ hn), fun j k _ hk hne => ?_⟩
  rw [hline?]
  exact h.covered (hkind j ▸ hk) hne

theorem Covers.edit_of_rearranges (h : t.Covers) {e : Edit}
    (he : t.dom.Rearranges (t.dom.apply e)) : (t.edit e).Covers :=
  h.of_kind? (h 0).line rfl he.kind?

theorem Covers.edit_of_makes (h : t.Covers) {e : Edit} {k : Option Kind}
    (he : t.dom.Makes k (t.dom.apply e)) : (t.edit e).CoversExcept t.dom.nodes.size := by
  refine ⟨(h 0).line, (h 0).lines, fun j l hj hl hne => ?_⟩
  have hkind : t.dom.kind? j = some l := by
    rw [← hl]
    exact ((he.kind? j).trans (if_neg hj)).symm
  exact h.covered hkind hne

/-- A text that has come up at the end of a place is what is recorded. -/
theorem append_text_eq {place : Place} {value : String} (hlast :
    ((t.dom.append place (.text value)).list place).back? = some t.dom.nodes.size) :
    t.append place (.text value) =
      (t.edit (.append place (.text value))).recordText t.dom.nodes.size := by
  simp only [Tracked.append, Tracked.recordLast, edit, Dom.apply, hlast]

/-- A text that has come up right before a node is what is recorded. -/
theorem insertBefore_text_eq {sibling : NodeId} {value : String} {place : Place} {i : Nat}
    (hpos : (t.dom.insertBefore sibling (.text value)).position? sibling = some (place, i + 1))
    (hat : ((t.dom.insertBefore sibling (.text value)).list place)[i]? = some t.dom.nodes.size) :
    t.insertBefore sibling (.text value) =
      (t.edit (.insertBefore sibling (.text value))).recordText t.dom.nodes.size := by
  obtain ⟨hparent, hidx⟩ := Dom.position?_eq_some_iff.1 hpos
  simp only [Tracked.insertBefore, Tracked.recordBefore, parentOf_eq, edit, Dom.apply, hparent,
    hidx, hat]

theorem Covers.append (h : t.Covers) (place : Place) (item : Item) :
    (t.append place item).Covers := by
  cases item with
  | node id => exact h.edit_of_rearranges (.append_node t.dom place id)
  | text value =>
    rcases t.dom.append_text_cases place value with hsame | ⟨hmakes, hlast⟩
    · have hedit : (t.edit (.append place (.text value))).Covers := h.edit_of_rearranges hsame
      exact hedit.recordLast place
    · have hexcept : (t.edit (.append place (.text value))).CoversExcept t.dom.nodes.size :=
        h.edit_of_makes hmakes
      rw [append_text_eq hlast]
      exact hexcept.recordText ((hmakes.kind? _).trans (if_pos rfl))

theorem Covers.insertBefore (h : t.Covers) (sibling : NodeId) (item : Item) :
    (t.insertBefore sibling item).Covers := by
  cases item with
  | node id => exact h.edit_of_rearranges (.insertBefore_node t.dom sibling id)
  | text value =>
    rcases t.dom.insertBefore_text_cases sibling value with hsame | ⟨hmakes, place, i, hpos, hat⟩
    · have hedit : (t.edit (.insertBefore sibling (.text value))).Covers :=
        h.edit_of_rearranges hsame
      exact hedit.recordBefore sibling
    · have hexcept : (t.edit (.insertBefore sibling (.text value))).CoversExcept
          t.dom.nodes.size := h.edit_of_makes hmakes
      rw [insertBefore_text_eq hpos hat]
      exact hexcept.recordText ((hmakes.kind? _).trans (if_pos rfl))

/-- **One edit keeps the invariant**, if a line that it reports is not zero. -/
theorem Covers.apply (h : t.Covers) {e : Edit} (he : ∀ n, e = .line n → 1 ≤ n) :
    (t.apply e).Covers := by
  cases e with
  | line n => exact h.of_kind? (he n rfl) rfl (Dom.Rearranges.refl t.dom).skip.kind?
  | mode m => exact h.of_kind? (h 0).line rfl (Dom.Rearranges.refl t.dom).skip.kind?
  | doctype d =>
    have hmakes := Dom.makes_updateList_make t.dom .document (·.push t.dom.nodes.size) (.doctype d)
      (some .document)
    refine (h.edit_of_makes (e := .doctype d) hmakes).covers fun k hk hne => ?_
    have hdoctype : some k = some .doctype := hk.symm.trans ((hmakes.kind? _).trans (if_pos rfl))
    exact absurd (Option.some.inj hdoctype) hne
  | element name attrs =>
    exact (h.edit_of_makes (t.dom.makes_make (.element name attrs) none)).recordAt (h 0).line
  | comment data =>
    exact (h.edit_of_makes (t.dom.makes_make (.comment data) none)).recordAt (Nat.le_max_right _ 1)
  | instruction target data =>
    have hmakes := t.dom.makes_make (.instruction target data) none
    refine (h.edit_of_makes (e := .instruction target data) hmakes).covers fun k hk _ => ?_
    have hnone : some k = none := hk.symm.trans ((hmakes.kind? _).trans (if_pos rfl))
    cases hnone
  | append place item => exact h.append place item
  | insertBefore sibling item => exact h.insertBefore sibling item
  | foster table below item =>
    rw [Tracked.apply, Tracked.foster, parentOf_eq]
    dsimp only
    split
    · exact h.insertBefore table item
    · exact h.append (.children below) item
  | addAttrs target attrs => exact h.edit_of_rearranges (Dom.Rearranges.addAttrs _ _ _).skip
  | detach target =>
    refine h.edit_of_rearranges (Dom.Rearranges.skip ?_)
    split
    · exact (Dom.Rearranges.refl t.dom).unlink target
    · exact .refl t.dom
  | moveChildren source target =>
    exact h.edit_of_rearranges (Dom.Rearranges.moveChildren _ _ _).skip

/-- **Every node gets a line.** After any sequence of edits, every element, comment and text has a
line, if lines count from one in the edits. -/
theorem ofEdits_covers {es : List Edit} (hes : ∀ n, .line n ∈ es → 1 ≤ n) :
    (ofEdits es).Covers := by
  have hrun : ∀ t : Tracked, t.Covers → (es.foldl Tracked.apply t).Covers := by
    induction es with
    | nil => exact fun t ht => ht
    | cons e es ih =>
      intro t ht
      have he : (t.apply e).Covers := ht.apply fun n hn => hes n (hn ▸ List.mem_cons_self)
      exact ih (fun n hn => hes n (List.mem_cons_of_mem e hn)) _ he
  exact hrun {} covers_empty

end Tracked

end HtmlWalk.Html
