import HtmlWalk.Html.Session
import HtmlWalk.Html.Tree

/-!
# Parsing

A source becomes tokens, the tokens edits, the edits a document, and the document a tree of nodes.
A fragment is parsed in the context of a template, so that parts of tables and the like are kept as
they are written; its nodes are the children of the root element that the parser puts around them.
-/

namespace HtmlWalk.Html

/-- The parsed trees at the top of a document. -/
def documentTrees (options : ParseOptions) (t : Tracked) : List Tree :=
  t.trees options.sourceLines .document

/-- The parsed trees in the root elements of a document. -/
def fragmentTrees (options : ParseOptions) (t : Tracked) : List Tree :=
  ((documentTrees options t).filter (·.isElementNamed "html")).flatMap Tree.inside

/-- If a root element is all that there is, the trees in it are its children. -/
theorem fragmentTrees_of_root {options : ParseOptions} {t : Tracked} {e : Element}
    {children : List Tree} (h : documentTrees options t = [.element e children none])
    (he : e.tag = "html") : fragmentTrees options t = children := by
  have hnamed : (Tree.element e children none).isElementNamed "html" = true := beq_iff_eq.2 he
  rw [fragmentTrees, h, List.filter_cons_of_pos hnamed, List.filter_nil, List.flatMap_singleton,
    Tree.inside]

/-- The document of a finished session. -/
def documentOf (options : ParseOptions) (s : Session) : Node :=
  let t := Tracked.ofEdits s.finish
  .document t.mode (Tree.toNodesAll (documentTrees options t))

end HtmlWalk.Html

namespace HtmlWalk

open Html

/-- Parse a document. -/
def parse (source : String) (options : ParseOptions) : Node :=
  documentOf options ((Session.document options).feed source.toList)

/-- Parse a fragment. -/
def parseFragment (source : String) (options : ParseOptions) : Node :=
  let s := (Session.fragment options).feed source.toList
  .fragment (Tree.toNodesAll (fragmentTrees options (Tracked.ofEdits s.finish)))

end HtmlWalk
