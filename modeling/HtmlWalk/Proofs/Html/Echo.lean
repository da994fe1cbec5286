import Mathlib.Order.WellFounded
import HtmlWalk.Html.Builder.State
import HtmlWalk.Proofs.Html.Depth
import HtmlWalk.Proofs.Html.TextParts

/-!
# Sequences of edits that say the same

Two sequences of edits can make the same document under other names: one of them has more lines in
it, or puts characters somewhere in two parts where the other does it at once. `Echo f es es'` says
that the second sequence makes the document of the first, with the names of its nodes mapped by `f`.
The map also says which names the nodes will have that are yet to be made; for those there is a
choice.

* `Echo.push`: an edit can be added to both sequences.
* `Echo.line`: a line can be added to the second one.
* `Echo.cut`: what the first sequence says of some characters, the second one can say of two parts
  of them.

**Theorem (`Echo.trees`).** The trees that are read off the two documents are the same.
-/

namespace HtmlWalk.Html

/-! ## Where characters go -/

/-- The edit that puts an item where it goes. -/
def Builder.Target.edit : Builder.Target → Item → Edit
  | place p, item => .append p item
  | table t below, item => .foster t below item

/-- Where an item goes under the new names. -/
def Builder.Target.rename (f : NodeId → NodeId) : Builder.Target → Builder.Target
  | place p => place (p.rename f)
  | table t below => table (f t) (f below)

theorem Builder.Target.rename_edit (f : NodeId → NodeId) (t : Builder.Target) (item : Item) :
    (t.edit item).rename f = (t.rename f).edit (item.rename f) := by
  cases t <;> rfl

/-- Whether a target is among the first `n` nodes. -/
def Builder.Target.Within (n : Nat) : Builder.Target → Prop
  | place p => p.Within n
  | table t below => t < n ∧ below < n

theorem Builder.Target.Within.fits {n : Nat} {t : Builder.Target} (h : t.Within n) {i : Item}
    (hi : i.Within n) : (t.edit i).Fits n := by
  cases t with
  | place p => exact ⟨h, hi⟩
  | table t below => exact ⟨h.1, h.2, hi⟩

/-- Characters that go somewhere, in two parts. -/
theorem Dom.apply_text_apply {d e : Dom} {t : Builder.Target} {x y : String}
    (ht : t.Within d.nodes.size) (h : Alike (d.apply (t.edit (.text x))) e) :
    Alike (d.apply (t.edit (.text (x ++ y)))) (e.apply (t.edit (.text y))) := by
  cases t with
  | place p => exact append_text_append h
  | table t below => exact foster_text_foster ht.1 h

/-! ## Sequences of edits -/

theorem Dom.Fit.push {es : Array Edit} (h : Dom.Fit es.toList) {e : Edit} (he : e.Fits es.size) :
    Dom.Fit (es.push e).toList := by
  intro i x hx
  rw [Array.toList_push] at hx
  rcases Nat.lt_trichotomy i es.toList.length with hi | rfl | hi
  · rw [List.getElem?_append_left hi] at hx
    exact h i x hx
  · simp at hx
    simpa [← hx] using he
  · have hlen : es.toList.length + 1 ≤ i := hi
    rw [List.getElem?_eq_none (by simpa using hlen)] at hx
    cases hx

@[simp] theorem Dom.ofEdits_push (es : Array Edit) (e : Edit) :
    Dom.ofEdits (es.push e).toList = (Dom.ofEdits es.toList).apply e := by
  rw [Array.toList_push, ofEdits_concat]

/-! ## Names that are yet to be given -/

/-- Names that no node has can be mapped to other names that no node has. -/
theorem Dom.Renamed.congr {f g : NodeId → NodeId} {d d' : Dom} (h : d.Renamed f d')
    (hlinked : d.Linked) (hold : ∀ i : Nat, i < d.nodes.size → g i = f i)
    (hnew : ∀ i : Nat, d.nodes.size ≤ i → d'.nodes.size ≤ g i) : d.Renamed g d' := by
  have hmap : ∀ xs : Array NodeId, (∀ x ∈ xs, x < d.nodes.size) → xs.map f = xs.map g :=
    fun xs hxs => Array.map_congr_left fun x hx => (hold x (hxs x hx)).symm
  refine ⟨fun id => ?_, ?_, h.mode⟩
  · rcases Nat.lt_or_ge id d.nodes.size with hid | hid
    · rw [hold id hid, h.slot?]
      cases hs : d.slot? id with
      | none => rfl
      | some s =>
        have hparent : s.parent.map (Place.rename f) = s.parent.map (Place.rename g) := by
          cases hp : s.parent with
          | none => rfl
          | some p =>
            have hwithin := hlinked.within id p (by rw [Dom.parent?, hs]; exact hp)
            cases p with
            | document => rfl
            | children i | contents i =>
              rw [Option.map_some, Option.map_some, Place.rename, Place.rename, hold i hwithin]
        have hchildren := hmap s.children fun x hx =>
          hlinked.lt_size (p := .children id) (by rw [Dom.list, hs]; exact hx)
        have hcontents := hmap s.contents fun x hx =>
          hlinked.lt_size (p := .contents id) (by rw [Dom.list, hs]; exact hx)
        simp only [Option.map_some, Slot.rename, hparent, hchildren, hcontents]
    · rw [slot?_of_size_le hid, slot?_of_size_le (hnew id hid)]
      rfl
  · rw [h.top]
    exact hmap d.top fun x hx => hlinked.lt_size (p := .document) hx

/-! ## Echoes -/

/-- The second sequence of edits makes the same document as the first, with other names for the
nodes. -/
structure Echo (f : Nat → Nat) (es es' : Array Edit) : Prop where
  /-- The order of the names is kept. -/
  mono : StrictMono f
  /-- The nodes that are yet to be made get the next names. -/
  next : ∀ k, f (es.size + k) = es'.size + k
  /-- Each edit is about nodes that those before it have made. -/
  fit : Dom.Fit es.toList
  /-- The documents are the same but for the names. -/
  dom : (Dom.ofEdits es.toList).Renamed f (Dom.ofEdits es'.toList)

namespace Echo

variable {f g : Nat → Nat} {es es' es'' : Array Edit} {e : Edit}

theorem injective (h : Echo f es es') : f.Injective := h.mono.injective

theorem next_size (h : Echo f es es') : f es.size = es'.size := h.next 0

protected theorem refl (h : Dom.Fit es.toList) : Echo id es es where
  mono := strictMono_id
  next _ := rfl
  fit := h
  dom := .refl _

protected theorem trans (h : Echo f es es') (h' : Echo g es' es'') : Echo (g ∘ f) es es'' where
  mono := h'.mono.comp h.mono
  next k := by rw [Function.comp_apply, h.next, h'.next]
  fit := h.fit
  dom := h.dom.trans h'.dom

/-- An edit is added to both sequences. -/
theorem push (h : Echo f es es') (he : e.Fits es.size) :
    Echo f (es.push e) (es'.push (e.rename f)) where
  mono := h.mono
  next k := by
    rw [Array.size_push, Array.size_push, Nat.add_assoc, h.next, Nat.add_assoc]
  fit := h.fit.push he
  dom := by
    rw [Dom.ofEdits_push, Dom.ofEdits_push]
    refine h.dom.apply h.injective ?_ e
    simpa [Dom.size_ofEdits] using h.next_size

/-- The second sequence gets more edits, which make no difference. -/
theorem widen (h : Echo f es es')
    (halike : (Dom.ofEdits es'.toList).Alike (Dom.ofEdits es''.toList))
    (hsize : es'.size ≤ es''.size) : ∃ g, (∀ i < es.size, g i = f i) ∧ Echo g es es'' := by
  have hsize' : ∀ k, f (es.size + k) + (es''.size - es'.size) = es''.size + k := fun k => by
    rw [h.next]
    omega
  refine ⟨fun i => if i < es.size then f i else f i + (es''.size - es'.size),
    fun i hi => if_pos hi, ?_, fun k => ?_, h.fit, ?_⟩
  · intro i j hij
    have := h.mono hij
    dsimp only
    split <;> split <;> omega
  · rw [if_neg (by omega), hsize']
  · refine (h.dom.alike halike).congr (Dom.linked_ofEdits h.fit) (fun i hi => ?_) fun i hi => ?_
    · rw [Dom.size_ofEdits] at hi
      exact if_pos hi
    · rw [Dom.size_ofEdits] at hi ⊢
      obtain ⟨k, rfl⟩ := Nat.exists_eq_add_of_le hi
      rw [if_neg (by simp)]
      simp only [Array.length_toList, hsize']
      omega

/-- The second sequence is told of a line. -/
theorem line (h : Echo f es es') (n : Nat) :
    ∃ g, (∀ i < es.size, g i = f i) ∧ Echo g es (es'.push (.line n)) := by
  refine h.widen ?_ (by simp)
  rw [Dom.ofEdits_push]
  exact (Dom.Alike.refl _).skip

/-- What puts characters somewhere can do so in two parts. -/
theorem cut (h : Dom.Fit es.toList) {t : Builder.Target} (ht : t.Within es.size) (x y : String) :
    ∃ g, (∀ i < es.size + 1, g i = i) ∧
      Echo g (es.push (t.edit (.text (x ++ y))))
        ((es.push (t.edit (.text x))).push (t.edit (.text y))) := by
  have halike := Dom.apply_text_apply (d := Dom.ofEdits es.toList) (x := x) (y := y)
    (by rwa [Dom.size_ofEdits]) (.refl _)
  simp only [← Dom.ofEdits_push] at halike
  simpa using (Echo.refl (h.push (ht.fits (i := .text (x ++ y)) trivial))).widen halike (by simp)

/-- **The layout mode is the same.** -/
theorem mode (h : Echo f es es') :
    (Tracked.ofEdits es'.toList).mode = (Tracked.ofEdits es.toList).mode := by
  have hmode : ∀ edits, (Tracked.ofEdits edits).mode = (Dom.ofEdits edits).mode := fun edits =>
    (Tracked.foldl_apply edits (t := {}) rfl).2
  rw [hmode, hmode, h.dom.mode]

/-- **The trees are the same.** -/
theorem trees (h : Echo f es es') :
    (Tracked.ofEdits es'.toList).trees false .document =
      (Tracked.ofEdits es.toList).trees false .document := by
  have hdom : ∀ edits, (Tracked.ofEdits edits).dom = Dom.ofEdits edits := fun edits =>
    (Tracked.foldl_apply edits (t := {}) rfl).1
  refine Tracked.trees_renamed (f := f) ?_ h.mode ?_ ?_
  · rw [hdom, hdom]
    exact h.dom
  · rw [hdom]
    exact Dom.linked_ofEdits h.fit
  · rw [hdom, hdom, Dom.size_ofEdits, Dom.size_ofEdits]
    exact h.mono.le_apply.trans_eq h.next_size

end Echo

end HtmlWalk.Html
