import HtmlWalk.Proofs.Html.Conversion
import HtmlWalk.Proofs.Html.Fragment.Rules

/-!
# Fragments are complete

**Theorem (`parseFragment_complete`).** The document of which a fragment is made has one
child, the root element, and everything that the builder has made stands under it. So the nodes of
the fragment, which are the children of root elements, are all there are: each element and comment
that was made, and all characters.

Doctypes, head, body and frameset tags, templates without an end and comments after the last end tag
make no difference. All of that is in the invariant of the builder (`Stage.InFragment.token`), which
holds at every end; here it is read off there.
-/

namespace HtmlWalk.Html

/-! ## What edits make -/

/-- What an edit makes that stands nowhere yet. -/
def Edit.content? : Edit → Option Content
  | element name attrs => some (.element name attrs)
  | comment data => some (.comment data)
  | instruction target data => some (.instruction target data)
  | _ => none

namespace Dom

variable {d : Dom} {rank : NodeId → Nat} {x : NodeId}

/-- What an edit has made is there in the end. -/
theorem grows_content?_ofEdits {es : List Edit} {e : Edit} (he : es[x]? = some e) {c : Content}
    (hc : e.content? = some c) : ∃ c', (ofEdits es).content? x = some c' ∧ c.Grows c' := by
  induction es using List.reverseRecOn with
  | nil => cases he
  | append_singleton es last ih =>
    rw [ofEdits_concat]
    rcases Nat.lt_or_ge x es.length with hx | hx
    · rw [List.getElem?_append_left hx] at he
      obtain ⟨c', hc', hgrows⟩ := ih he
      have hlast := growsAt_apply last ((size_ofEdits es).symm ▸ hx)
      rw [GrowsAt, hc'] at hlast
      generalize ((ofEdits es).apply last).content? x = o at hlast ⊢
      cases hlast with
      | some hmore => exact ⟨_, rfl, hgrows.trans hmore⟩
    · obtain rfl : x = es.length := by
        have hlt := (List.getElem?_eq_some_iff.1 he).1
        rw [List.length_append, List.length_singleton] at hlt
        exact Nat.le_antisymm (Nat.le_of_lt_succ hlt) hx
      rw [List.getElem?_concat_length] at he
      obtain rfl := Option.some.inj he
      have hmake : (ofEdits es).apply last = (ofEdits es).make c none := by
        cases last <;> cases hc <;> rfl
      rw [hmake, content?_make, size_ofEdits, if_pos rfl]
      exact ⟨c, rfl, .same c⟩

namespace Rooted

variable (h : d.Rooted rank ∅)
include h

theorem slot?_root : ∃ s attrs, d.slot? 0 = some s ∧
    s.content = .element { tag := "html" } attrs := by
  obtain ⟨attrs, hc⟩ := exists_content?_of_name? h.root
  obtain ⟨s, hs, hcontent⟩ := Option.map_eq_some_iff.1 hc
  exact ⟨s, attrs, hs, hcontent⟩

theorem leads_root : d.Leads [0] (.children 0) := by
  have htop : (0 : NodeId) ∈ d.top := by simp [h.top]
  exact ⟨[], rfl, .top htop⟩

/-- The nodes under the root element are all others. -/
theorem mem_inOrder_iff : x ∈ d.inOrder (.children 0) ↔ (d.content? x).isSome ∧ x ≠ 0 := by
  refine ⟨fun hx => ⟨h.linked.isSome_content? (stands_of_mem_inOrder hx), ?_⟩, fun hx =>
    h.mem_inOrder hx.1 hx.2⟩
  rintro rfl
  -- The root element is not below itself: there is one way to it, and that is short.
  obtain ⟨child, hchild, hx⟩ := List.mem_flatMap.1 hx
  have hway := h.leads_root.way (Array.mem_toList_iff.1 hchild)
  obtain ⟨rest, hrest, hsuffix⟩ := way_of_mem_inOrderFrom hx hway
  have htop : (0 : NodeId) ∈ d.top := by simp [h.top]
  obtain rfl := h.linked.way_unique hrest (.top htop)
  simpa using hsuffix.length_le

theorem mem_inOrder_of_text? {value : String} (hx : d.text? x = some value) :
    x ∈ d.inOrder (.children 0) := by
  refine h.mem_inOrder (isSome_content?_of_text? hx) ?_
  rintro rfl
  obtain ⟨s, attrs, hs, hc⟩ := h.slot?_root
  simp [text?, content?, hs, hc] at hx

end Rooted

end Dom

/-! ## Reading off the fragment -/

namespace Tracked

variable {t : Tracked} {rank : NodeId → Nat}

theorem isSome_own?_of_kind? {id : NodeId} (located : Bool) (h : (t.dom.kind? id).isSome) :
    (t.own? located id).isSome := by
  unfold Dom.kind? at h
  unfold own?
  cases hc : t.dom.content? id with
  | none => simp [hc] at h
  | some c => cases c <;> simp_all [Content.kind?]

/-- The trees under root elements are those under the one root element. -/
theorem fragmentTrees_eq (h : t.dom.Rooted rank ∅) (options : ParseOptions) :
    fragmentTrees options t = t.trees options.sourceLines (.children 0) := by
  obtain ⟨s, attrs, hs, hc⟩ := h.slot?_root
  obtain ⟨depth, hdepth⟩ : ∃ depth, t.dom.nodes.size = depth + 1 :=
    Nat.exists_eq_succ_of_ne_zero (Nat.ne_zero_of_lt (Dom.lt_size_of_slot? hs))
  have htop : t.dom.list .document = #[0] := h.top
  have hchildren : t.dom.list (.children 0) = s.children := by rw [Dom.list, hs]; rfl
  obtain ⟨e, he, hroot⟩ : ∃ e : Element, e.tag = "html" ∧ documentTrees options t =
      [.element e (s.children.toList.filterMap (t.tree? options.sourceLines depth)) none] := by
    rw [documentTrees, trees, htop, hdepth]
    simp [tree?, hs, hc, Name.isHtml]
  rw [fragmentTrees_of_root hroot he, trees, hchildren, hdepth]
  refine List.filterMap_congr fun x hx => (tree?_succ h.linked (h.leads_root.way ?_) ?_).symm
  · rw [hchildren]
    exact Array.mem_toList_iff.1 hx
  · rw [hdepth, List.length_singleton]

end Tracked

/-! ## Fragments -/

/-- Nodes are everything that edits have made. The document has one child, the root element, and the
nodes are what becomes of the children of that element. -/
structure Complete (edits : List Edit) (located : Bool) (nodes : List Node) : Prop where
  top : (Tracked.ofEdits edits).dom.top = #[0]
  root : (Tracked.ofEdits edits).dom.name? 0 = some { tag := "html" }
  read : nodes = Tree.toNodesAll ((Tracked.ofEdits edits).trees located (.children 0))
  /-- In document order, the data is that of the nodes below the root element. -/
  data : (Node.preorderAll nodes).map Node.own =
    ((Tracked.ofEdits edits).dom.inOrder (.children 0)).filterMap
      ((Tracked.ofEdits edits).own? located)
  /-- Something becomes of each of them. -/
  shown : ∀ id ∈ (Tracked.ofEdits edits).dom.inOrder (.children 0),
    ((Tracked.ofEdits edits).own? located id).isSome
  /-- They are all nodes that there are besides the root element, each once. -/
  once : ((Tracked.ofEdits edits).dom.inOrder (.children 0)).Nodup
  all : ∀ id, id ∈ (Tracked.ofEdits edits).dom.inOrder (.children 0) ↔
    ((Tracked.ofEdits edits).dom.content? id).isSome ∧ id ≠ 0
  /-- An element or a comment that was made is among them, under its name or with its data. -/
  made : ∀ (id : NodeId) (e : Edit) (c : Content), edits[id]? = some e → e.content? = some c →
    ∃ c', (Tracked.ofEdits edits).dom.content? id = some c' ∧ c.Grows c'
  /-- The characters of an edit stand in one of them, right behind those that stood there before. -/
  written : ∀ before e after, edits = before ++ e :: after → ∀ value ∈ e.characters?,
    ∃ id ∈ (Tracked.ofEdits edits).dom.inOrder (.children 0), ∃ more,
      (Tracked.ofEdits edits).dom.text? id =
        some (((Dom.ofEdits before).text? id).getD "" ++ value ++ more)

theorem Builder.InFragment.complete {b : Builder} (h : b.InFragment) (options : ParseOptions) :
    Complete b.edits.toList options.sourceLines
      (Tree.toNodesAll (fragmentTrees options (Tracked.ofEdits b.edits.toList))) := by
  have hdom := dom_ofEdits b.edits.toList
  obtain ⟨rank, hrooted, -⟩ := h.rooted
  rw [Builder.dom, ← hdom] at hrooted
  rw [Tracked.fragmentTrees_eq hrooted]
  exact {
    top := hrooted.top
    root := hrooted.root
    read := rfl
    data := Tracked.map_own_trees hrooted.linked hrooted.leads_root _
    shown := fun id hid =>
      Tracked.isSome_own?_of_kind? _ (hrooted.shown id (hrooted.mem_inOrder_iff.1 hid).1)
    once := hrooted.linked.nodup_inOrder hrooted.leads_root
    all := fun id => hrooted.mem_inOrder_iff
    made := fun id e c he hc => hdom ▸ Dom.grows_content?_ofEdits he hc
    written := fun before e after hedits value hvalue => by
      obtain ⟨id, htext⟩ := h.written before e after hedits value hvalue
      rw [← Dom.ofEdits_concat] at htext
      obtain ⟨more, hmore⟩ := Dom.text?_ofEdits_append htext after
      rw [List.append_assoc, List.singleton_append, ← hedits, ← hdom] at hmore
      exact ⟨id, hrooted.mem_inOrder_of_text? hmore, more, hmore⟩ }

namespace Session

/-- The edits of a fragment are those of a builder that has never left the root element. -/
theorem finish_inFragment (options : ParseOptions) (source : List Char) :
    ∃ b : Builder, b.InFragment ∧ ((fragment options).feed source).finish = b.edits.toList := by
  have htoken : ∀ s line t, Stage.InFragment s → (s.token line t).1.InFragment :=
    fun _ line t h => h.token line t
  have hfeed : ((fragment options).feed source).stage.InFragment :=
    keeps_feed htoken (s := fragment options) (Stage.InFragment.fragment _) source
  obtain ⟨stage, hfinish, hstage⟩ := keeps_finish htoken hfeed
  cases stage with
  | opening o => exact hstage.elim
  | building b => exact ⟨b, hstage, hfinish⟩

end Session

end HtmlWalk.Html

namespace HtmlWalk

open Html

/-- **Parsing a fragment drops nothing**: its nodes are everything that the builder has made. -/
theorem parseFragment_complete (source : String) (options : ParseOptions) :
    Complete ((Session.fragment options).feed source.toList).finish options.sourceLines
      (parseFragment source options).children := by
  obtain ⟨b, hb, hedits⟩ := Session.finish_inFragment options source.toList
  have hcomplete := hb.complete options
  rw [← hedits] at hcomplete
  rw [parseFragment, Node.children, Node.children?, Option.getD_some]
  exact hcomplete

end HtmlWalk
