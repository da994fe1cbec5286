import HtmlWalk.Html.Tracked

/-!
# Parsed trees

A finished document is read off as a tree. The contents of a template stand in a document of their
own beside the children of the template. In the nodes that become of the tree that document is left
out, and what stands in it follows the children. Processing instructions have no counterpart among
the nodes and are left out too.
-/

namespace HtmlWalk.Html

/-- A tree of parsed nodes. -/
inductive Tree
  | document (mode : Mode) (children : List Tree)
  | doctype (doctype : Doctype)
  | element (element : Element) (children : List Tree) (contents : Option Tree)
  | comment (comment : Comment)
  | text (text : Text)
  | instruction (target data : String)

namespace Tree

mutual

/-- The node that becomes of a tree: at most one. -/
def toNodes : Tree → List Node
  | document mode children => [.document mode (toNodesAll children)]
  | doctype d => [.doctype d]
  | element e children none => [.element e (toNodesAll children)]
  | element e children (some contents) =>
    [.element e (toNodesAll children ++ contents.childNodes)]
  | comment c => [.comment c]
  | text t => [.text t]
  | instruction .. => []

/-- The nodes that become of what is in a tree: of its children, and after them of what is in the
document of its contents. -/
def childNodes : Tree → List Node
  | document _ children | element _ children none => toNodesAll children
  | element _ children (some contents) => toNodesAll children ++ contents.childNodes
  | doctype _ | comment _ | text _ | instruction .. => []

/-- The nodes that become of a list of trees. -/
def toNodesAll : List Tree → List Node
  | [] => []
  | t :: rest => t.toNodes ++ toNodesAll rest

end

/-- What is in a tree: its children, and after them what is in the document of its contents. -/
def inside : Tree → List Tree
  | document _ children | element _ children none => children
  | element _ children (some contents) => children ++ contents.inside
  | doctype _ | comment _ | text _ | instruction .. => []

/-- Whether a tree is an element with this tag. -/
def isElementNamed (tag : String) : Tree → Bool
  | element e .. => e.tag == tag
  | _ => false

theorem toNodesAll_eq_flatMap (ts : List Tree) : toNodesAll ts = ts.flatMap toNodes := by
  induction ts with
  | nil => rfl
  | cons t ts ih => rw [toNodesAll, ih, List.flatMap_cons]

theorem toNodesAll_append (ts ts' : List Tree) :
    toNodesAll (ts ++ ts') = toNodesAll ts ++ toNodesAll ts' := by
  simp only [toNodesAll_eq_flatMap, List.flatMap_append]

theorem childNodes_eq : ∀ t : Tree, t.childNodes = toNodesAll t.inside
  | document _ _ | element _ _ none => by rw [childNodes, inside]
  | element _ children (some contents) => by
    rw [childNodes, inside, toNodesAll_append, childNodes_eq contents]
  | doctype _ | comment _ | text _ | instruction .. => by rw [childNodes, inside, toNodesAll]

theorem inside_element (e : Element) (children : List Tree) (contents : Option Tree) :
    (element e children contents).inside = children ++ contents.toList.flatMap inside := by
  cases contents <;> simp [inside]

/-- The children of the node that becomes of an element are what is in it. -/
theorem toNodes_element (e : Element) (children : List Tree) (contents : Option Tree) :
    (element e children contents).toNodes =
      [.element e (toNodesAll (element e children contents).inside)] := by
  cases contents <;> simp [toNodes, inside, toNodesAll_append, childNodes_eq]

end Tree

namespace Tracked

/-- The tree of a node, `depth` levels deep; with `located` it says on which lines nodes start. -/
def tree? (t : Tracked) (located : Bool) : Nat → NodeId → Option Tree
  | 0, _ => none
  | depth + 1, id =>
    (t.dom.slot? id).map fun s =>
      let line := if located then t.line? id else none
      let children := s.children.toList.filterMap (t.tree? located depth)
      match s.content with
      | .document => .document t.mode children
      | .doctype d => .doctype d
      | .element name attrs =>
        let contents := .document t.mode (s.contents.toList.filterMap (t.tree? located depth))
        .element { tag := name.tag, space := name.space.uri, attrs, line } children
          (if name.isHtml "template" then some contents else none)
      | .comment data => .comment { data, line }
      | .instruction target data => .instruction target data
      | .text value => .text { value, line }

/-- The trees of a place. No node is deeper than there are nodes. -/
def trees (t : Tracked) (located : Bool) (place : Place) : List Tree :=
  (t.dom.list place).toList.filterMap (t.tree? located t.dom.nodes.size)

end Tracked

end HtmlWalk.Html
