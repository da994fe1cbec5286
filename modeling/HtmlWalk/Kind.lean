/-!
# The six kinds of node

A node is of exactly one kind. The kinds stand in one fixed order, the *enter order*, in which a
walk tries enter callbacks; leave callbacks are tried in the reverse order. Each kind has a key
under which callbacks are registered, and every kind but the element has a fixed node name.
-/

namespace HtmlWalk

/-- The kind of a node, in enter order. -/
inductive Kind
  | document
  | fragment
  | doctype
  | element
  | comment
  | text
deriving DecidableEq

namespace Kind

/-- All kinds, in the order in which enter callbacks are tried. -/
def enterOrder : List Kind := [document, fragment, doctype, element, comment, text]

/-- All kinds, in the order in which leave callbacks are tried. -/
def leaveOrder : List Kind := enterOrder.reverse

/-- The place of a kind in the enter order, from zero. -/
def index : Kind → Nat
  | document => 0
  | fragment => 1
  | doctype => 2
  | element => 3
  | comment => 4
  | text => 5

/-- The key under which the callbacks of a kind are registered. -/
def visitorKey : Kind → String
  | document => "Document"
  | fragment => "DocumentFragment"
  | doctype => "DocumentType"
  | element => "Element"
  | comment => "CommentNode"
  | text => "TextNode"

/-- The kind registered under a key, if the key is known. -/
def ofVisitorKey? (key : String) : Option Kind := enterOrder.find? (·.visitorKey == key)

/-- The name of a kind in diagnostics. -/
def debugName : Kind → String
  | document => "Document"
  | fragment => "DocumentFragment"
  | doctype => "DocumentType"
  | element => "Element"
  | comment => "Comment"
  | text => "Text"

/-- The node name shared by all nodes of a kind; elements are named by their tag instead. -/
def nodeName? : Kind → Option String
  | document => some "#document"
  | fragment => some "#document-fragment"
  | doctype => some "#documentType"
  | element => none
  | comment => some "#comment"
  | text => some "#text"

/-- Whether nodes of this kind own a list of children. -/
def hasChildren : Kind → Bool
  | document | fragment | element => true
  | doctype | comment | text => false

/-- Whether callbacks of this kind are told the parent of the node. -/
def hasParent : Kind → Bool
  | element | comment | text => true
  | document | fragment | doctype => false

theorem mem_enterOrder (k : Kind) : k ∈ enterOrder := by
  cases k <;> simp [enterOrder]

theorem ofVisitorKey?_visitorKey (k : Kind) : ofVisitorKey? k.visitorKey = some k := by
  cases k <;> decide

/-- A kind is found under its own key only. -/
theorem ofVisitorKey?_eq_some_iff {key : String} {k : Kind} :
    ofVisitorKey? key = some k ↔ key = k.visitorKey := by
  constructor
  · intro h
    exact (eq_of_beq (List.find?_some (p := fun l : Kind => l.visitorKey == key) h)).symm
  · rintro rfl
    exact ofVisitorKey?_visitorKey k

theorem visitorKey_inj {k l : Kind} : k.visitorKey = l.visitorKey ↔ k = l := by
  rw [← ofVisitorKey?_eq_some_iff, ofVisitorKey?_visitorKey, Option.some.injEq]

end Kind

end HtmlWalk
