import HtmlWalk.Html.Parse
import HtmlWalk.Proofs.Html.Coverage
import HtmlWalk.Proofs.Html.SessionLines
import HtmlWalk.Proofs.Walk.Conservation

/-!
# Which nodes show their lines

**Theorem (`parse_showsLine`).** If source lines are asked for, every element, comment and text of a
parsed document or fragment shows one, counted from one. If not, no node does.

Each node below the root comes from a node under construction (`Tracked.Shows`), whose line it
shows. In the document under construction every such node has a line, because the edits of a session
count lines from one.
-/

namespace HtmlWalk

/-- What is asked of a node as to its source line. -/
def Node.ShowsLine (located : Bool) (n : Node) : Prop :=
  if located then
    n.kind ∈ [.element, .comment, .text] → ∃ line, n.line? = some line ∧ 1 ≤ line
  else n.line? = none

namespace Html

/-! ## The nodes that become of trees -/

namespace Tree

/-- All nodes that become of a tree hold data with a property. -/
def All (P : Own → Prop) (t : Tree) : Prop := ∀ n ∈ t.toNodes, n.All P

variable {P : Own → Prop}

theorem forall_mem_toNodesAll {ts : List Tree} :
    (∀ n ∈ toNodesAll ts, n.All P) ↔ ∀ t ∈ ts, t.All P := by
  simp only [All, toNodesAll_eq_flatMap, List.mem_flatMap, forall_exists_index, and_imp]
  exact ⟨fun h t ht n hn => h n t ht hn, fun h n t ht hn => h t ht n hn⟩

theorem all_document {mode : Mode} {children : List Tree} :
    (document mode children).All P ↔ P (.document mode) ∧ ∀ t ∈ children, t.All P := by
  rw [All, toNodes, List.forall_mem_singleton, Node.all_iff, ← forall_mem_toNodesAll]
  rfl

theorem all_element {e : Element} {children : List Tree} {contents : Option Tree} :
    (element e children contents).All P ↔
      P (.element e) ∧ ∀ t ∈ (element e children contents).inside, t.All P := by
  rw [All, toNodes_element, List.forall_mem_singleton, Node.all_iff, ← forall_mem_toNodesAll]
  rfl

/-- What holds of a tree whose root is an element holds of what is in it. -/
theorem All.inside {t : Tree} (h : t.All P) {tag : String} (ht : t.isElementNamed tag = true) :
    ∀ t' ∈ t.inside, t'.All P := by
  cases t with
  | element e children contents => exact (all_element.1 h).2
  | _ => cases ht

end Tree

/-! ## Reading off trees -/

namespace Tracked

variable {t : Tracked} {located : Bool} {id : NodeId}

/-- What the node holds that becomes of a node under construction, if one does. -/
def own? (t : Tracked) (located : Bool) (id : NodeId) : Option Own :=
  let line := if located then t.line? id else none
  (t.dom.content? id).bind fun
    | .document => some (.document t.mode)
    | .doctype d => some (.doctype d)
    | .element name attrs =>
      some (.element { tag := name.tag, space := name.space.uri, attrs, line })
    | .comment data => some (.comment { data, line })
    | .instruction .. => none
    | .text value => some (.text { value, line })

/-- A node of a parsed tree comes from some node under construction. -/
def Shows (t : Tracked) (located : Bool) (own : Own) : Prop := ∃ id, t.own? located id = some own

/-- The tree of a node comes from nodes with a property, if the property passes on to what stands
in a node. -/
theorem all_tree?_of {P : NodeId → Prop} (hP : ∀ id s, t.dom.slot? id = some s → P id →
      ∀ j, j ∈ s.children ∨ j ∈ s.contents → P j) (depth : Nat) (hid : P id) :
    ∀ tree ∈ t.tree? located depth id,
      tree.All fun own => ∃ j, P j ∧ t.own? located j = some own := by
  induction depth generalizing id with
  | zero =>
    intro tree htree
    cases htree
  | succ depth ih =>
    intro tree htree
    obtain ⟨s, hs, rfl⟩ := Option.map_eq_some_iff.1 htree
    have hown : t.dom.content? id = some s.content := by rw [Dom.content?, hs]; rfl
    have hbelow : ∀ ids : List NodeId, (∀ j ∈ ids, P j) →
        ∀ tree ∈ ids.filterMap (t.tree? located depth),
          tree.All fun own => ∃ j, P j ∧ t.own? located j = some own := by
      intro ids hids tree hmem
      obtain ⟨j, hj, htree⟩ := List.mem_filterMap.1 hmem
      exact ih (hids j hj) tree htree
    have hchildren := hbelow s.children.toList fun j hj =>
      hP id s hs hid j (.inl (Array.mem_toList_iff.1 hj))
    have hcontents := hbelow s.contents.toList fun j hj =>
      hP id s hs hid j (.inr (Array.mem_toList_iff.1 hj))
    cases hc : s.content with
    | document => exact Tree.all_document.2 ⟨⟨id, hid, by simp [own?, hown, hc]⟩, hchildren⟩
    | element name attrs =>
      refine Tree.all_element.2 ⟨⟨id, hid, by simp [own?, hown, hc]⟩, ?_⟩
      rw [Tree.inside_element]
      refine List.forall_mem_append.2 ⟨hchildren, ?_⟩
      split
      · simpa [Tree.inside] using hcontents
      · simp
    | instruction target data =>
      intro n hn
      cases hn
    | doctype d | comment data | text value =>
      refine List.forall_mem_singleton.2 (Node.all_iff.2 ⟨⟨id, hid, ?_⟩, fun c hmem => ?_⟩)
      · simp [own?, hown, hc, Node.own]
      · cases hmem

theorem all_tree? (t : Tracked) (located : Bool) (depth : Nat) (id : NodeId) :
    ∀ tree ∈ t.tree? located depth id, tree.All (t.Shows located) := by
  intro tree htree n hn m hm
  have hall := all_tree?_of (P := fun _ => True) (fun _ _ _ _ _ _ => trivial) depth trivial tree
    htree
  obtain ⟨j, -, hj⟩ := hall n hn m hm
  exact ⟨j, hj⟩

theorem all_trees (t : Tracked) (located : Bool) (place : Place) :
    ∀ tree ∈ t.trees located place, tree.All (t.Shows located) := by
  intro tree hmem
  obtain ⟨id, -, hid⟩ := List.mem_filterMap.1 hmem
  exact t.all_tree? located _ id tree hid

/-- A node shows the line of the node under construction that it comes from. -/
theorem line?_of_own? {n : Node} (h : t.own? located id = some n.own)
    (hkind : n.kind ∈ [.element, .comment, .text]) :
    t.dom.kind? id = some n.kind ∧ n.line? = if located then t.line? id else none := by
  obtain ⟨c, hc, hown⟩ := Option.bind_eq_some_iff.1 h
  rw [Dom.kind?, hc, Option.bind_some]
  cases n with
  | document mode cs | fragment cs | doctype d => simp [Node.kind, Node.own, Own.kind] at hkind
  | element e cs | comment d | text d =>
    cases c <;> cases hown
    exact ⟨rfl, rfl⟩

theorem Covers.showsLine (h : t.Covers) {n : Node} (hn : t.Shows located n.own) :
    n.ShowsLine located := by
  obtain ⟨id, hid⟩ := hn
  unfold Node.ShowsLine
  split
  · next hlocated =>
    intro hkind
    have hne : n.kind ≠ .doctype := by
      intro hdoctype
      simp [hdoctype] at hkind
    obtain ⟨hk, hline⟩ := line?_of_own? hid hkind
    obtain ⟨line, hsome⟩ := Option.isSome_iff_exists.1 (h.covered hk hne)
    refine ⟨line, ?_, (h id).lines id line hsome⟩
    rw [hline, if_pos hlocated, hsome]
  · next hlocated =>
    cases n with
    | document mode cs | fragment cs | doctype d => rfl
    | element e cs => rw [(line?_of_own? hid (.head _)).2, if_neg hlocated]
    | comment d => rw [(line?_of_own? hid (.tail _ (.head _))).2, if_neg hlocated]
    | text d => rw [(line?_of_own? hid (.tail _ (.tail _ (.head _)))).2, if_neg hlocated]

theorem Covers.showsLine_of_mem (h : t.Covers) {trees : List Tree}
    (htrees : ∀ tree ∈ trees, tree.All (t.Shows located)) :
    ∀ n ∈ Node.preorderAll (Tree.toNodesAll trees), n.ShowsLine located := by
  intro n hn
  obtain ⟨m, hm, hnm⟩ := Node.mem_preorderAll.1 hn
  exact h.showsLine (Tree.forall_mem_toNodesAll.2 htrees m hm n hnm)

end Tracked

/-- The trees under the roots of a fragment are among those that are read off. -/
theorem all_fragmentTrees (options : ParseOptions) (t : Tracked) :
    ∀ tree ∈ fragmentTrees options t, tree.All (t.Shows options.sourceLines) := by
  intro tree hmem
  obtain ⟨root, hroot, hunder⟩ := List.mem_flatMap.1 hmem
  obtain ⟨hroot, hnamed⟩ := List.mem_filter.1 hroot
  exact (t.all_trees options.sourceLines .document root hroot).inside hnamed tree hunder

end Html

open Html

/-- A document or fragment has no line of its own. -/
theorem Node.showsLine_of_isRoot {n : Node} (h : n.isDocument = true ∨ n.isFragment = true)
    (located : Bool) : n.ShowsLine located := by
  unfold Node.ShowsLine
  cases n <;> simp_all [isDocument, isFragment, Node.kind, Node.own, Own.kind, Node.line?]

/-- **Every element, comment and text shows its line**, counted from one, if source lines are asked
for. If not, no node does. -/
theorem parse_showsLine (source : String) (options : ParseOptions) :
    (∀ n ∈ (parse source options).preorder, n.ShowsLine options.sourceLines) ∧
      ∀ n ∈ (parseFragment source options).preorder, n.ShowsLine options.sourceLines := by
  constructor
  · have hcovers := Tracked.ofEdits_covers
      ((Session.numbered_document options).feed source.toList).finish
    refine List.forall_mem_cons.2 ⟨Node.showsLine_of_isRoot (.inl rfl) _, ?_⟩
    exact hcovers.showsLine_of_mem (Tracked.all_trees _ options.sourceLines .document)
  · have hcovers := Tracked.ofEdits_covers
      ((Session.numbered_fragment options).feed source.toList).finish
    refine List.forall_mem_cons.2 ⟨Node.showsLine_of_isRoot (.inr rfl) _, ?_⟩
    exact hcovers.showsLine_of_mem (all_fragmentTrees options _)

end HtmlWalk
