import HtmlWalk.Html.Dom
import HtmlWalk.Html.Token
import Std.Data.TreeMap

/-!
# Source lines

A tracked document keeps, beside the document under construction, the line up to which the source
has been read, and the line on which each element, comment and text starts. An element is on the
line that has been read when it is made. A comment and a text may have line breaks of their own,
which have been read by then, so those are subtracted; a text gets its line with its first
characters, and more of them do not change it. Lines count from one.

A text has no edit of its own: it comes up when characters are put somewhere. So it is looked for
afterwards, at the end of the place or right before the sibling.
-/

namespace HtmlWalk.Html

/-- A document under construction with the lines of its nodes. -/
structure Tracked where
  /-- The document. -/
  dom : Dom := {}
  /-- The line up to which the source has been read. -/
  line : Nat := 1
  /-- The layout mode. -/
  mode : Mode := .noQuirks
  /-- The lines on which nodes start. -/
  lines : Std.TreeMap Nat Nat := ∅

namespace Tracked

/-! ## Recording -/

/-- The line on which a node starts. -/
def line? (t : Tracked) (id : NodeId) : Option Nat := t.lines[id]?

/-- Record on which line a node starts. -/
def recordAt (t : Tracked) (id : NodeId) (start : Nat) : Tracked :=
  { t with lines := t.lines.insert id start }

/-- Record that a node starts on the line that has been read. -/
def record (t : Tracked) (id : NodeId) : Tracked := t.recordAt id t.line

/-- Record that a node starts so many line breaks before the line that has been read. -/
def recordSpanning (t : Tracked) (id : NodeId) (breaks : Nat) : Tracked :=
  t.recordAt id (max (t.line - breaks) 1)

/-- Record a text, unless that was done before. -/
def recordText (t : Tracked) (id : NodeId) : Tracked :=
  match t.dom.text? id with
  | some value =>
    if (t.line? id).isSome then t else t.recordSpanning id (lineBreaks value.toList)
  | none => t

/-- Record the last node of a place, if it is a text. -/
def recordLast (t : Tracked) (place : Place) : Tracked :=
  match (t.dom.list place).back? with
  | some last => t.recordText last
  | none => t

/-- Look up where a node stands. The link to the place can only be read by taking it out of the
node, so it is put back afterwards. -/
def parentOf (t : Tracked) (id : NodeId) : Option Place × Tracked :=
  let parent := t.dom.parent? id
  let taken := t.dom.setParent id none
  (parent, { t with dom := taken.setParent id parent })

/-- Record the node right before another one, if it is a text. -/
def recordBefore (t : Tracked) (sibling : NodeId) : Tracked :=
  let (parent, t) := t.parentOf sibling
  match parent with
  | none => t
  | some place =>
    match (t.dom.list place).idxOf? sibling with
    | some (i + 1) =>
      match (t.dom.list place)[i]? with
      | some before => t.recordText before
      | none => t
    | _ => t

/-! ## Edits -/

/-- The document after an edit, whose lines are not recorded. -/
def edit (t : Tracked) (e : Edit) : Tracked := { t with dom := t.dom.apply e }

/-- Put an item at the end of a place. -/
def append (t : Tracked) (place : Place) (item : Item) : Tracked :=
  let t := t.edit (.append place item)
  match item with
  | .node _ => t
  | .text _ => t.recordLast place

/-- Put an item right before a node. -/
def insertBefore (t : Tracked) (sibling : NodeId) (item : Item) : Tracked :=
  let t := t.edit (.insertBefore sibling item)
  match item with
  | .node _ => t
  | .text _ => t.recordBefore sibling

/-- Put an item right before a table, or, if the table stands nowhere, at the end of the element
below it on the stack of open elements. -/
def foster (t : Tracked) (table below : NodeId) (item : Item) : Tracked :=
  let (parent, t) := t.parentOf table
  if parent.isSome then t.insertBefore table item else t.append (.children below) item

/-- The tracked document after one more edit. -/
def apply (t : Tracked) : Edit → Tracked
  | .line n => { t.edit (.line n) with line := n }
  | .mode mode => { t.edit (.mode mode) with mode }
  | .element name attrs =>
    let id := t.dom.nodes.size
    (t.edit (.element name attrs)).record id
  | .comment data =>
    let id := t.dom.nodes.size
    (t.edit (.comment data)).recordSpanning id (lineBreaks data.toList)
  | .append place item => t.append place item
  | .insertBefore sibling item => t.insertBefore sibling item
  | .foster table below item => t.foster table below item
  | e => t.edit e

/-- The tracked document that a sequence of edits makes. -/
def ofEdits (edits : List Edit) : Tracked := edits.foldl apply {}

end Tracked

end HtmlWalk.Html
