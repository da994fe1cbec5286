import HtmlWalk.Attribute
import HtmlWalk.Kind

/-!
# Nodes

A node owns its children outright and knows nothing of its parent. What it holds besides the
children is its *own* data: the mode of a document, the identifiers of a doctype, the tag,
namespace and attributes of an element, the characters of a comment or a text, and for the last
three the line on which the source first mentions them, if that was recorded.

Three kinds can have children (`Kind.hasChildren`); `children` of the others is empty and
`withChildren` leaves them alone, so that a node is always put together again from its two parts.
-/

namespace HtmlWalk

/-! ## Own data -/

/-- How far a document departs from standard layout rules. -/
inductive Mode
  | noQuirks
  | quirks
  | limitedQuirks
deriving DecidableEq

/-- The mode of a document of which nothing else is said. -/
instance : Inhabited Mode := ⟨.noQuirks⟩

/-- The name of a mode in diagnostics. -/
def Mode.name : Mode → String
  | .noQuirks => "NoQuirks"
  | .quirks => "Quirks"
  | .limitedQuirks => "LimitedQuirks"

/-- A document type declaration; an identifier that was not given is empty. -/
structure Doctype where
  /-- The declared name of the root. -/
  name : String
  /-- The public identifier. -/
  publicId : String
  /-- The system identifier. -/
  systemId : String
deriving DecidableEq

/-- The namespace of ordinary elements. -/
def htmlNamespace : String := "http://www.w3.org/1999/xhtml"

/-- What an element holds besides its children. -/
structure Element where
  /-- The tag name. -/
  tag : String
  /-- The namespace. -/
  space : String := htmlNamespace
  /-- The attributes, in source order. -/
  attrs : List Attribute := []
  /-- The recorded source line. -/
  line : Option Nat := none
deriving DecidableEq

/-- The characters of a comment. -/
structure Comment where
  /-- The text between the comment marks. -/
  data : String
  /-- The recorded source line. -/
  line : Option Nat := none
deriving DecidableEq

/-- A run of characters. -/
structure Text where
  /-- The characters. -/
  value : String
  /-- The recorded source line. -/
  line : Option Nat := none
deriving DecidableEq

/-- A node with everything below it. -/
inductive Node
  | document (mode : Mode) (children : List Node)
  | fragment (children : List Node)
  | doctype (doctype : Doctype)
  | element (element : Element) (children : List Node)
  | comment (comment : Comment)
  | text (text : Text)

/-- What a node holds besides its children. -/
inductive Own
  | document (mode : Mode)
  | fragment
  | doctype (doctype : Doctype)
  | element (element : Element)
  | comment (comment : Comment)
  | text (text : Text)
deriving DecidableEq

/-! ## The two parts of a node -/

/-- The kind of a node with this data. -/
def Own.kind : Own → Kind
  | document _ => .document
  | fragment => .fragment
  | doctype _ => .doctype
  | element _ => .element
  | comment _ => .comment
  | text _ => .text

/-- The node with this data and these children; a kind without children drops them. -/
def Own.node (own : Own) (children : List Node) : Node :=
  match own with
  | document mode => .document mode children
  | fragment => .fragment children
  | doctype d => .doctype d
  | element e => .element e children
  | comment c => .comment c
  | text t => .text t

namespace Node

/-- A text of these characters, of no known line. -/
def ofText (value : String) : Node := text { value }

/-- A comment of these characters, of no known line. -/
def ofComment (data : String) : Node := comment { data }

/-- An ordinary element without attributes. -/
def ofTag (tag : String) (children : List Node) : Node := element { tag } children

/-- A document in the default mode. -/
def ofChildren (children : List Node) : Node := document default children

/-- The data of a node besides its children. -/
def own : Node → Own
  | document mode _ => .document mode
  | fragment _ => .fragment
  | doctype d => .doctype d
  | element e _ => .element e
  | comment c => .comment c
  | text t => .text t

/-- The kind of a node. -/
def kind (n : Node) : Kind := n.own.kind

/-- The children, if the kind of the node can have any. -/
def children? : Node → Option (List Node)
  | document _ cs | fragment cs | element _ cs => some cs
  | doctype _ | comment _ | text _ => none

/-- The children, none for a kind that cannot have any. -/
def children (n : Node) : List Node := n.children?.getD []

/-- The node with other children; a kind without children is left alone. -/
def withChildren (n : Node) (children : List Node) : Node := n.own.node children

@[simp] theorem kind_own (n : Node) : n.own.kind = n.kind := rfl

@[simp] theorem own_withChildren (n : Node) (cs : List Node) : (n.withChildren cs).own = n.own := by
  cases n <;> rfl

@[simp] theorem kind_withChildren (n : Node) (cs : List Node) :
    (n.withChildren cs).kind = n.kind := by
  cases n <;> rfl

@[simp] theorem withChildren_children (n : Node) : n.withChildren n.children = n := by
  cases n <;> rfl

theorem children_withChildren (n : Node) (cs : List Node) :
    (n.withChildren cs).children = if n.kind.hasChildren then cs else [] := by
  cases n <;> rfl

theorem hasChildren_or_children_eq_nil (n : Node) :
    n.kind.hasChildren = true ∨ n.children = [] := by
  cases n <;> first | exact .inl rfl | exact .inr rfl

/-- As many children as the node has are not dropped. -/
theorem children_withChildren_of_length {n : Node} {cs : List Node}
    (h : cs.length = n.children.length) : (n.withChildren cs).children = cs := by
  cases n <;> first | rfl | exact (List.eq_nil_of_length_eq_zero h).symm

@[simp] theorem withChildren_withChildren (n : Node) (cs ds : List Node) :
    (n.withChildren cs).withChildren ds = n.withChildren ds := by
  cases n <;> rfl

end Node

@[simp] theorem Own.own_node (o : Own) (cs : List Node) : (o.node cs).own = o := by
  cases o <;> rfl

/-- The node put together again has the children, unless its kind drops them. -/
theorem Own.children_node {o : Own} {cs : List Node} (h : o.kind.hasChildren = true ∨ cs = []) :
    (o.node cs).children = cs := by
  cases o <;> first | rfl | exact (h.resolve_left nofun).symm

namespace Node

/-! ## Reading a node -/

/-- The tag of an element. -/
def tag? : Node → Option String
  | element e _ => some e.tag
  | _ => none

/-- The node name: the tag of an element, the fixed name of any other kind. -/
def name (n : Node) : String := (n.tag?.orElse fun _ => n.kind.nodeName?).getD ""

/-- The characters of a text. -/
def text? : Node → Option String
  | text t => some t.value
  | _ => none

/-- The characters of a comment. -/
def comment? : Node → Option String
  | comment c => some c.data
  | _ => none

/-- The recorded source line. -/
def line? : Node → Option Nat
  | element e _ => e.line
  | comment c => c.line
  | text t => t.line
  | _ => none

/-- The attributes of an element. -/
def attrs? : Node → Option (List Attribute)
  | element e _ => some e.attrs
  | _ => none

/-- The value of the first attribute called `name`. -/
def attr? (n : Node) (name : String) : Option String := n.attrs?.bind (Attribute.value? name)

/-- A short description: the node name, with the characters of a text or a comment, or the
declared name of a doctype. -/
def label : Node → String
  | text t => "#text:" ++ t.value
  | comment c => "#comment:" ++ c.data
  | doctype d => "#documentType:" ++ d.name
  | n => n.name

/-! ## The six tests -/

/-- Whether the node is a document. -/
def isDocument : Node → Bool
  | document .. => true
  | _ => false

/-- Whether the node is a document fragment. -/
def isFragment : Node → Bool
  | fragment _ => true
  | _ => false

/-- Whether the node is a document type declaration. -/
def isDoctype : Node → Bool
  | doctype _ => true
  | _ => false

/-- Whether the node is an element. -/
def isElement : Node → Bool
  | element .. => true
  | _ => false

/-- Whether the node is a comment. -/
def isComment : Node → Bool
  | comment _ => true
  | _ => false

/-- Whether the node is a text. -/
def isText : Node → Bool
  | text _ => true
  | _ => false

/-! ## Changing a node -/

/-- The node with an attribute set; only an element has attributes. -/
def setAttr (name value : String) : Node → Node
  | element e cs => element { e with attrs := Attribute.set name value e.attrs } cs
  | n => n

/-- The node with its children rewritten as a list; a kind without children is left alone. -/
def mapChildren (f : List Node → List Node) (n : Node) : Node := n.withChildren (f n.children)

/-- The element with other children; any other node is left alone. -/
def withElementChildren (cs : List Node) : Node → Node
  | element e _ => element e cs
  | n => n

/-- The leaf wrapped in `depth` elements. -/
def nest (tag : String) (leaf : Node) : Nat → Node
  | 0 => leaf
  | depth + 1 => ofTag tag [nest tag leaf depth]

end Node

/-- Whether a node is of this kind. -/
def Kind.matchesNode : Kind → Node → Bool
  | document, n => n.isDocument
  | fragment, n => n.isFragment
  | doctype, n => n.isDoctype
  | element, n => n.isElement
  | comment, n => n.isComment
  | text, n => n.isText

theorem Kind.matchesNode_iff (k : Kind) (n : Node) : k.matchesNode n = true ↔ n.kind = k := by
  cases k <;> cases n <;> simp [matchesNode, Node.kind, Node.own, Own.kind, Node.isDocument,
    Node.isFragment, Node.isDoctype, Node.isElement, Node.isComment, Node.isText]

/-! ## Whole trees -/

mutual

/-- The number of nodes, the node itself included. -/
def Node.size : Node → Nat
  | .document _ cs | .fragment cs | .element _ cs => Node.sizeAll cs + 1
  | .doctype _ | .comment _ | .text _ => 1

/-- The number of nodes in a list of trees. -/
def Node.sizeAll : List Node → Nat
  | [] => 0
  | n :: rest => n.size + Node.sizeAll rest

end

mutual

/-- The number of nodes on the longest path from the root down. -/
def Node.height : Node → Nat
  | .document _ cs | .fragment cs | .element _ cs => Node.heightAll cs + 1
  | .doctype _ | .comment _ | .text _ => 1

/-- The largest height in a list of trees. -/
def Node.heightAll : List Node → Nat
  | [] => 0
  | n :: rest => max n.height (Node.heightAll rest)

end

mutual

/-- The nodes in document order: each before those below it, siblings from first to last. -/
def Node.preorder : Node → List Node
  | n@(.document _ cs) | n@(.fragment cs) | n@(.element _ cs) => n :: Node.preorderAll cs
  | n@(.doctype _) | n@(.comment _) | n@(.text _) => [n]

/-- The nodes of a list of trees in document order. -/
def Node.preorderAll : List Node → List Node
  | [] => []
  | n :: rest => n.preorder ++ Node.preorderAll rest

end

theorem Node.preorder_eq (n : Node) : n.preorder = n :: Node.preorderAll n.children := by
  cases n <;> simp [preorder, children, children?, preorderAll]

theorem Node.mem_preorderAll {m : Node} {ns : List Node} :
    m ∈ Node.preorderAll ns ↔ ∃ n ∈ ns, m ∈ n.preorder := by
  induction ns with
  | nil => simp [preorderAll]
  | cons n ns ih => simp [preorderAll, ih]

mutual

theorem Node.length_preorder : ∀ n : Node, n.preorder.length = n.size
  | .document _ cs | .fragment cs | .element _ cs => by
    simp [preorder, size, length_preorderAll cs]
  | .doctype _ | .comment _ | .text _ => rfl

theorem Node.length_preorderAll : ∀ ns : List Node, (Node.preorderAll ns).length = Node.sizeAll ns
  | [] => rfl
  | n :: rest => by simp [preorderAll, sizeAll, length_preorder n, length_preorderAll rest]

end

mutual

/-- The number of nodes of a kind. -/
def Node.count (k : Kind) : Node → Nat
  | n@(.document _ cs) | n@(.fragment cs) | n@(.element _ cs) =>
    Node.countAll k cs + if n.kind = k then 1 else 0
  | n@(.doctype _) | n@(.comment _) | n@(.text _) => if n.kind = k then 1 else 0

/-- The number of nodes of a kind in a list of trees. -/
def Node.countAll (k : Kind) : List Node → Nat
  | [] => 0
  | n :: rest => n.count k + Node.countAll k rest

end

mutual

/-- The nodes of a kind can be counted in document order. -/
theorem Node.count_eq_countP (k : Kind) : ∀ n : Node,
    n.count k = n.preorder.countP fun m => decide (m.kind = k)
  | .document _ cs | .fragment cs | .element _ cs => by
    simp [count, preorder, List.countP_cons, countAll_eq_countP k cs]
  | .doctype _ | .comment _ | .text _ => by simp [count, preorder, List.countP_cons]

theorem Node.countAll_eq_countP (k : Kind) : ∀ ns : List Node,
    Node.countAll k ns = (Node.preorderAll ns).countP fun m => decide (m.kind = k)
  | [] => rfl
  | n :: rest => by simp [countAll, preorderAll, count_eq_countP k n, countAll_eq_countP k rest]

end

end HtmlWalk
