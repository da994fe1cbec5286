import HtmlWalk.Html.Name

/-!
# Edits

Tree construction never looks at the tree that it builds: it says what is to be done to it, one
edit after the other. Nodes are named by the edit that brought them in: node `k` is the one that
edit number `k`, counted from zero, has made.
-/

namespace HtmlWalk.Html

/-- A node, named by the number of the edit that made it. -/
abbrev NodeId := Nat

/-- A list of nodes that a node can be put into. A template has two: its own children, and its
contents, which are a document of their own. -/
inductive Place
  | document
  | children (id : NodeId)
  | contents (id : NodeId)
deriving DecidableEq

/-- What is put into a place: a node that exists, or characters. -/
inductive Item
  | node (id : NodeId)
  | text (value : String)
deriving DecidableEq

/-- One step of tree construction. -/
inductive Edit
  /-- The source has been read up to this line. -/
  | line (n : Nat)
  /-- The document is laid out in this mode. -/
  | mode (m : Mode)
  /-- Put a doctype at the end of the document. -/
  | doctype (d : Doctype)
  /-- Make an element. -/
  | element (name : Name) (attrs : List Attribute)
  /-- Make a comment. -/
  | comment (data : String)
  /-- Make a processing instruction. -/
  | instruction (target data : String)
  /-- Put an item at the end of a place. -/
  | append (place : Place) (item : Item)
  /-- Put an item right before a node. -/
  | insertBefore (sibling : NodeId) (item : Item)
  /-- Put an item right before a table, or at the end of the element `below` the table on the
  stack of open elements if the table stands nowhere. -/
  | foster (table below : NodeId) (item : Item)
  /-- Give an element those of the attributes whose names it lacks. -/
  | addAttrs (target : NodeId) (attrs : List Attribute)
  /-- Take a node out of its place. -/
  | detach (target : NodeId)
  /-- Move all nodes of one place to the end of another. -/
  | moveChildren (source target : Place)
deriving DecidableEq

end HtmlWalk.Html
