import HtmlWalk.Html.Edit

/-!
# The document under construction

A document is the result of a sequence of edits. Each edit adds one entry to the list of nodes, an
empty one if it makes no node, so that the name of a node is its place in that list. A node knows
the place that it stands in, and a place knows its nodes in order.

Characters are put into the text that stands right before them, if there is one, and otherwise
become a text node of their own. An edit that names no suitable node has no effect.
-/

namespace HtmlWalk.Html

/-- What a node under construction is. Documents are nodes too, but no edit makes one: the document
under construction and the contents of its templates are places, which have no names. -/
inductive Content
  | document
  | doctype (d : Doctype)
  | element (name : Name) (attrs : List Attribute)
  | comment (data : String)
  | instruction (target data : String)
  | text (value : String)
deriving DecidableEq

/-- A node under construction. -/
structure Slot where
  /-- What the node is. -/
  content : Content
  /-- Where it stands. -/
  parent : Option Place := none
  /-- Its own children. -/
  children : Array NodeId := #[]
  /-- Its contents, if it is a template. -/
  contents : Array NodeId := #[]
deriving DecidableEq

/-- A document under construction. -/
structure Dom where
  /-- The nodes, each under its name. -/
  nodes : Array (Option Slot) := #[]
  /-- The children of the document. -/
  top : Array NodeId := #[]
  /-- The layout mode. -/
  mode : Mode := .noQuirks
deriving DecidableEq

namespace Dom

/-! ## Reading -/

/-- The node of this name. -/
def slot? (d : Dom) (id : NodeId) : Option Slot := (d.nodes[id]?).join

/-- The place where a node stands. -/
def parent? (d : Dom) (id : NodeId) : Option Place := (d.slot? id).bind (·.parent)

/-- What a node is. -/
def content? (d : Dom) (id : NodeId) : Option Content := (d.slot? id).map (·.content)

/-- The characters of a text. -/
def text? (d : Dom) (id : NodeId) : Option String :=
  match d.content? id with
  | some (.text value) => some value
  | _ => none

/-- The nodes of a place, in order. -/
def list (d : Dom) : Place → Array NodeId
  | .document => d.top
  | .children id => ((d.slot? id).map (·.children)).getD #[]
  | .contents id => ((d.slot? id).map (·.contents)).getD #[]

/-- Whether there is such a place. -/
def hasPlace (d : Dom) : Place → Bool
  | .document => true
  | .children id | .contents id => (d.slot? id).isSome

/-- Whether a node can be put somewhere: it was made by an edit of its own, and no doctype. -/
def isMovable (d : Dom) (id : NodeId) : Bool :=
  match d.content? id with
  | some (.element ..) | some (.comment _) | some (.instruction ..) => true
  | _ => false

/-- The place of a node, and how many nodes stand before it there. -/
def position? (d : Dom) (id : NodeId) : Option (Place × Nat) :=
  (d.parent? id).bind fun place => ((d.list place).idxOf? id).map (place, ·)

/-! ## Writing -/

/-- Change a node. -/
def update (d : Dom) (id : NodeId) (f : Slot → Slot) : Dom :=
  { d with nodes := d.nodes.modify id (·.map f) }

/-- Change the list of a place. -/
def updateList (d : Dom) (place : Place) (f : Array NodeId → Array NodeId) : Dom :=
  match place with
  | .document => { d with top := f d.top }
  | .children id => d.update id fun s => { s with children := f s.children }
  | .contents id => d.update id fun s => { s with contents := f s.contents }

/-- Record where a node stands. -/
def setParent (d : Dom) (id : NodeId) (parent : Option Place) : Dom :=
  d.update id ({ · with parent })

/-- Add characters to a text. -/
def extendText (d : Dom) (id : NodeId) (value : String) : Dom :=
  d.update id fun s =>
    match s.content with
    | .text before => { s with content := .text (before ++ value) }
    | _ => s

/-- Add the entry of an edit that makes a node. -/
def make (d : Dom) (content : Content) (parent : Option Place) : Dom :=
  { d with nodes := d.nodes.push (some { content, parent }) }

/-- Add the entry of an edit that makes no node. -/
def skip (d : Dom) : Dom := { d with nodes := d.nodes.push none }

/-- Take a node out of its place. -/
def unlink (d : Dom) (id : NodeId) : Dom :=
  match d.position? id with
  | some (place, i) => (d.updateList place (·.eraseIdxIfInBounds i)).setParent id none
  | none => d

/-! ## Edits -/

/-- Put a new text at the end of a place. -/
def appendText (d : Dom) (place : Place) (value : String) : Dom :=
  let id := d.nodes.size
  if d.hasPlace place then (d.updateList place (·.push id)).make (.text value) (some place)
  else d.skip

/-- Put an item at the end of a place. -/
def append (d : Dom) (place : Place) : Item → Dom
  | .node id =>
    if d.hasPlace place && d.isMovable id && (d.parent? id).isNone then
      ((d.updateList place (·.push id)).setParent id (some place)).skip
    else d.skip
  | .text value =>
    match (d.list place).back? with
    | some last =>
      if (d.text? last).isSome then (d.extendText last value).skip else d.appendText place value
    | none => d.appendText place value

/-- Put a new text into a place, behind the first `i` nodes. -/
def insertText (d : Dom) (place : Place) (i : Nat) (value : String) : Dom :=
  let id := d.nodes.size
  (d.updateList place (·.insertIdxIfInBounds i id)).make (.text value) (some place)

/-- Put an item right before a node. A node that stood elsewhere is taken from there. -/
def insertBefore (d : Dom) (sibling : NodeId) (item : Item) : Dom :=
  match d.position? sibling with
  | none => d.skip
  | some (place, i) =>
    match item with
    | .node id =>
      if d.isMovable id then
        let d := (d.unlink id).updateList place (·.insertIdxIfInBounds i id)
        (d.setParent id (some place)).skip
      else d.skip
    | .text value =>
      match if i = 0 then none else (d.list place)[i - 1]? with
      | some before =>
        if (d.text? before).isSome then (d.extendText before value).skip
        else d.insertText place i value
      | none => d.insertText place i value

/-- Put an item right before a table, or, if the table stands nowhere, at the end of the element
below it on the stack of open elements. -/
def foster (d : Dom) (table below : NodeId) (item : Item) : Dom :=
  if (d.parent? table).isSome then d.insertBefore table item
  else d.append (.children below) item

/-- Give an element those of the attributes whose names it lacks. -/
def addAttrs (d : Dom) (target : NodeId) (attrs : List Attribute) : Dom :=
  d.update target fun s =>
    match s.content with
    | .element name old =>
      let missing := attrs.filter fun a => !old.any (·.name == a.name)
      { s with content := .element name (old ++ missing) }
    | _ => s

/-- Move all nodes of one place to the end of another. -/
def moveChildren (d : Dom) (source target : Place) : Dom :=
  let moved := d.list source
  let d := d.updateList source fun _ => #[]
  let d := d.updateList target (· ++ moved)
  moved.foldl (fun d id => d.setParent id (some target)) d

/-- The document after one more edit. -/
def apply (d : Dom) : Edit → Dom
  | .line _ => d.skip
  | .mode mode => { d.skip with mode }
  | .doctype dt =>
    let id := d.nodes.size
    (d.updateList .document (·.push id)).make (.doctype dt) (some .document)
  | .element name attrs => d.make (.element name attrs) none
  | .comment data => d.make (.comment data) none
  | .instruction target data => d.make (.instruction target data) none
  | .append place item => d.append place item
  | .insertBefore sibling item => d.insertBefore sibling item
  | .foster table below item => d.foster table below item
  | .addAttrs target attrs => (d.addAttrs target attrs).skip
  | .detach target => (if d.isMovable target then d.unlink target else d).skip
  | .moveChildren source target => (d.moveChildren source target).skip

/-- The document that a sequence of edits makes. -/
def ofEdits (edits : List Edit) : Dom := edits.foldl apply {}

end Dom

end HtmlWalk.Html
