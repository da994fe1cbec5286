import Mathlib.Data.List.Basic
import HtmlWalk.Html.Reader

/-!
# Trees without source lines

**Theorem (`parse_eraseLines`).** Parse with source lines and erase them, and you have what a parse
without them gives: the same nodes in the same order with the same data. This holds of documents, of
fragments, and of documents that are read from a source that may fail.

Both parses build the same tracked document, since lines are recorded in any case; the option only
decides whether the tree that is read off it shows them. So the statement is about the reading. It
goes down the levels of the document (`Tracked.map_eraseLines_tree?`), and then from trees to nodes,
where the contents of a template join its children (`Tree.map_eraseLines_toNodesAll`).
-/

namespace HtmlWalk

/-! ## Erasing -/

mutual

/-- The node without source lines, on all levels. -/
def Node.eraseLines : Node → Node
  | .document mode cs => .document mode (Node.eraseLinesAll cs)
  | .fragment cs => .fragment (Node.eraseLinesAll cs)
  | .doctype d => .doctype d
  | .element e cs => .element { e with line := none } (Node.eraseLinesAll cs)
  | .comment c => .comment { c with line := none }
  | .text t => .text { t with line := none }

/-- The nodes without source lines, on all levels. -/
def Node.eraseLinesAll : List Node → List Node
  | [] => []
  | n :: rest => n.eraseLines :: Node.eraseLinesAll rest

end

theorem Node.eraseLinesAll_eq_map (ns : List Node) :
    Node.eraseLinesAll ns = ns.map Node.eraseLines := by
  induction ns with
  | nil => rfl
  | cons n ns ih => rw [eraseLinesAll, List.map_cons, ih]

namespace Html

mutual

/-- The tree without source lines, on all levels. -/
def Tree.eraseLines : Tree → Tree
  | .document mode children => .document mode (Tree.eraseLinesAll children)
  | .doctype d => .doctype d
  | .element e children none => .element { e with line := none } (Tree.eraseLinesAll children) none
  | .element e children (some contents) =>
    .element { e with line := none } (Tree.eraseLinesAll children) (some contents.eraseLines)
  | .comment c => .comment { c with line := none }
  | .text t => .text { t with line := none }
  | .instruction target data => .instruction target data

/-- The trees without source lines, on all levels. -/
def Tree.eraseLinesAll : List Tree → List Tree
  | [] => []
  | t :: rest => t.eraseLines :: Tree.eraseLinesAll rest

end

namespace Tree

theorem eraseLinesAll_eq_map (ts : List Tree) : Tree.eraseLinesAll ts = ts.map Tree.eraseLines := by
  induction ts with
  | nil => rfl
  | cons t ts ih => rw [eraseLinesAll, List.map_cons, ih]

theorem eraseLines_document (mode : Mode) (children : List Tree) :
    (document mode children).eraseLines = document mode (children.map eraseLines) := by
  rw [eraseLines, eraseLinesAll_eq_map]

theorem eraseLines_element (e : Element) (children : List Tree) (contents : Option Tree) :
    (element e children contents).eraseLines =
      element { e with line := none } (children.map eraseLines) (contents.map eraseLines) := by
  cases contents <;> simp [eraseLines, eraseLinesAll_eq_map]

mutual

/-- Erasing before and after trees become nodes is the same. -/
theorem map_eraseLines_toNodes : ∀ t : Tree,
    t.toNodes.map Node.eraseLines = t.eraseLines.toNodes
  | .document mode children | .element e children none => by
    simp [toNodes, eraseLines, Node.eraseLines, Node.eraseLinesAll_eq_map,
      map_eraseLines_toNodesAll children]
  | .element e children (some contents) => by
    simp [toNodes, eraseLines, Node.eraseLines, Node.eraseLinesAll_eq_map,
      map_eraseLines_toNodesAll children, map_eraseLines_childNodes contents]
  | .doctype _ | .comment _ | .text _ | .instruction .. => by
    simp [toNodes, eraseLines, Node.eraseLines]

theorem map_eraseLines_childNodes : ∀ t : Tree,
    t.childNodes.map Node.eraseLines = t.eraseLines.childNodes
  | .document _ children | .element _ children none => by
    rw [childNodes, eraseLines, childNodes, map_eraseLines_toNodesAll children]
  | .element _ children (some contents) => by
    rw [childNodes, eraseLines, childNodes, List.map_append, map_eraseLines_toNodesAll children,
      map_eraseLines_childNodes contents]
  | .doctype _ | .comment _ | .text _ | .instruction .. => rfl

theorem map_eraseLines_toNodesAll : ∀ ts : List Tree,
    (toNodesAll ts).map Node.eraseLines = toNodesAll (Tree.eraseLinesAll ts)
  | [] => rfl
  | t :: rest => by
    rw [toNodesAll, eraseLinesAll, toNodesAll, List.map_append, map_eraseLines_toNodes t,
      map_eraseLines_toNodesAll rest]

end

theorem inside_eraseLines : ∀ t : Tree, t.eraseLines.inside = t.inside.map eraseLines
  | .document _ _ | .element _ _ none => by
    rw [eraseLines, inside, inside, eraseLinesAll_eq_map]
  | .element _ _ (some contents) => by
    rw [eraseLines, inside, inside, List.map_append, eraseLinesAll_eq_map,
      inside_eraseLines contents]
  | .doctype _ | .comment _ | .text _ | .instruction .. => rfl

/-- Tags are no lines. -/
theorem isElementNamed_eraseLines (tag : String) (t : Tree) :
    t.eraseLines.isElementNamed tag = t.isElementNamed tag := by
  cases t with
  | element e children contents =>
    rw [eraseLines_element]
    rfl
  | _ => rfl

end Tree

/-! ## Reading off trees -/

namespace Tracked

/-- A tree with lines is the tree without them once the lines are erased. -/
theorem map_eraseLines_tree? (t : Tracked) (depth : Nat) (id : NodeId) :
    (t.tree? true depth id).map Tree.eraseLines = t.tree? false depth id := by
  induction depth generalizing id with
  | zero => rfl
  | succ depth ih =>
    have hbelow : ∀ ids : List NodeId,
        (ids.filterMap (t.tree? true depth)).map Tree.eraseLines =
          ids.filterMap (t.tree? false depth) := by
      intro ids
      rw [List.map_filterMap]
      exact List.filterMap_congr fun id _ => ih id
    rw [tree?, tree?, Option.map_map]
    congr 1
    funext s
    cases hs : s.content with
    | document => simp only [Function.comp_apply, hs, Tree.eraseLines_document, hbelow]
    | element name attrs =>
      simp only [Function.comp_apply, hs, Tree.eraseLines_element, hbelow]
      congr 1
      split <;> simp [Tree.eraseLines_document, hbelow]
    | _ => simp [hs, Tree.eraseLines]

theorem map_eraseLines_trees (t : Tracked) (place : Place) :
    (t.trees true place).map Tree.eraseLines = t.trees false place := by
  unfold trees
  rw [List.map_filterMap]
  exact List.filterMap_congr fun id _ => t.map_eraseLines_tree? _ id

end Tracked

variable {options : ParseOptions}

theorem eraseLines_documentOf (s : Session) :
    (documentOf { options with sourceLines := true } s).eraseLines =
      documentOf { options with sourceLines := false } s := by
  unfold documentOf documentTrees
  rw [Node.eraseLines, Node.eraseLinesAll_eq_map, Tree.map_eraseLines_toNodesAll,
    Tree.eraseLinesAll_eq_map, Tracked.map_eraseLines_trees]

theorem map_eraseLines_fragmentTrees (t : Tracked) :
    (fragmentTrees { options with sourceLines := true } t).map Tree.eraseLines =
      fragmentTrees { options with sourceLines := false } t := by
  unfold fragmentTrees documentTrees
  rw [← t.map_eraseLines_trees, List.filter_map, List.flatMap_map, List.map_flatMap]
  simp only [Function.comp_def, Tree.isElementNamed_eraseLines, Tree.inside_eraseLines]

end Html

open Html

/-- **Source lines change nothing else.** Erasing them from what was parsed with them gives what is
parsed without them, and a source that fails does so either way. -/
theorem parse_eraseLines (options : ParseOptions) :
    (∀ source, (parse source { options with sourceLines := true }).eraseLines =
      parse source { options with sourceLines := false }) ∧
    (∀ source, (parseFragment source { options with sourceLines := true }).eraseLines =
      parseFragment source { options with sourceLines := false }) ∧
    ∀ deliveries, (parseReader deliveries { options with sourceLines := true }).map
        Node.eraseLines =
      parseReader deliveries { options with sourceLines := false } := by
  refine ⟨fun source => ?_, fun source => ?_, fun deliveries => ?_⟩
  · exact eraseLines_documentOf _
  · unfold parseFragment
    rw [Node.eraseLines, Node.eraseLinesAll_eq_map, Tree.map_eraseLines_toNodesAll,
      Tree.eraseLinesAll_eq_map, map_eraseLines_fragmentTrees]
    rfl
  · -- What is fed does not depend on the option, so the source fails in both parses or in neither.
    have hsession : Session.document { options with sourceLines := true } =
        Session.document { options with sourceLines := false } := rfl
    unfold parseReader
    rw [hsession]
    cases ByteSession.feedAll
        { session := Session.document { options with sourceLines := false } } deliveries with
    | error e => rfl
    | ok s => exact congrArg Except.ok (eraseLines_documentOf s.finish)

end HtmlWalk
