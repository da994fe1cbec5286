import HtmlWalk.Html.Edit
import HtmlWalk.Html.Tokenizer.State

/-!
# The tree builder's state

The tree builder turns tokens into edits. It remembers the elements that are open, innermost
first, with the root element of the document at the bottom, which is never closed; the formatting
elements that are to be opened again when they have been closed by force; and the *insertion mode*,
which selects the rules for the next token.
-/

namespace HtmlWalk.Html

/-! ## Types -/

/-- The insertion modes from the root element on. -/
inductive Insertion
  | beforeHead
  | inHead
  | inHeadNoscript
  | afterHead
  | inBody
  | text
  | inTable
  | inTableText
  | inCaption
  | inColumnGroup
  | inTableBody
  | inRow
  | inCell
  | inSelect
  | inSelectInTable
  | inTemplate
  | afterBody
  | inFrameset
  | afterFrameset
  | afterAfterBody
  | afterAfterFrameset
deriving DecidableEq

/-- An element whose end has not been reached. -/
structure Open where
  /-- The node. -/
  id : NodeId
  /-- Its name. -/
  name : Name
  /-- Whether it is an annotation whose encoding says that it holds ordinary content. -/
  mixed : Bool := false
deriving DecidableEq

/-- A formatting element that is to be opened again, or the border of such elements. -/
inductive Format
  | marker
  | element (id : NodeId) (tag : Tag)
deriving DecidableEq

/-- A part of a token that is treated as a whole. White space is told apart from other characters
where the insertion mode asks for it. -/
inductive Piece
  | startTag (tag : Tag)
  | endTag (tag : Tag)
  | comment (data : String)
  | space (run : List Char)
  | chars (run : List Char)
  | null
  | eof
deriving DecidableEq

/-- What the tree builder asks of the tokenizer after a tag. -/
inductive Signal
  /-- What follows is text up to the matching end tag. -/
  | raw (kind : Raw)
  /-- What follows is text up to the end. -/
  | plaintext
  /-- A script has ended, and the source starts anew. -/
  | scriptEnd
deriving DecidableEq

/-- The state of tree construction. -/
structure Builder where
  /-- Whether the source is read as if scripts could run. -/
  scripting : Bool
  /-- Whether a fragment is read, in the context of a template. -/
  fragment : Bool
  /-- The layout mode of the document. -/
  layout : Mode
  /-- The root element. -/
  root : Open
  /-- The open elements above the root, innermost first. -/
  stack : List Open := []
  /-- The insertion mode. -/
  mode : Insertion
  /-- The insertion mode to go back to after text. -/
  resume : Insertion := .inBody
  /-- The insertion modes of the open templates, innermost first. -/
  templates : List Insertion := []
  /-- The formatting elements, the last one first. -/
  formatting : List Format := []
  /-- The head of the document. -/
  head : Option NodeId := none
  /-- The form to which controls belong. -/
  form : Option NodeId := none
  /-- Whether a frameset may still take the place of the body. -/
  framesetOk : Bool := true
  /-- Whether a line feed right now is no part of the text. -/
  dropBreak : Bool := false
  /-- Whether what is out of place in a table goes before the table. -/
  fostering : Bool := false
  /-- Characters in a table that have not been placed, the last run first. -/
  tableText : List (List Char) := []
  /-- The edits made so far. -/
  edits : Array Edit := #[]

/-- The outcome of a rule for a piece of a token. -/
inductive Outcome
  /-- The piece has been dealt with. -/
  | done (b : Builder)
  /-- The piece has been dealt with, and the tokenizer has to know. -/
  | signal (s : Signal) (b : Builder)
  /-- The piece has yet to be dealt with by the rules of the insertion mode. -/
  | again (b : Builder)

/-- Whether some of the characters are no white space. -/
def hasInk (run : List Char) : Bool := run.any (!isSpace ·)

namespace Builder

/-! ## The stack of open elements -/

/-- The innermost open element. -/
def current (b : Builder) : Open := b.stack.headD b.root

/-- All open elements, innermost first. -/
def opens (b : Builder) : List Open := b.stack ++ [b.root]

/-- Whether the innermost open element is the ordinary element of that tag. -/
def currentIs (b : Builder) (tag : String) : Bool := b.current.name.isHtml tag

/-- Whether an ordinary element of that tag is open. -/
def hasOpen (b : Builder) (tag : String) : Bool := b.opens.any (·.name.isHtml tag)

/-- Whether an element is open. -/
def isOpen (b : Builder) (id : NodeId) : Bool := b.opens.any (·.id == id)

/-- Whether an open element passes the test before the search reaches a bound. The bound itself is
tested too. -/
def findsInScope (bound : Name → Bool) (test : Open → Bool) : List Open → Bool
  | [] => false
  | o :: rest => test o || (!bound o.name && findsInScope bound test rest)

/-- Whether an open element in scope passes the test. -/
def hasInScope (b : Builder) (bound : Name → Bool) (test : Open → Bool) : Bool :=
  findsInScope bound test b.opens

/-- Whether an ordinary element of that tag is in scope. -/
def inScope (b : Builder) (bound : Name → Bool) (tag : String) : Bool :=
  b.hasInScope bound (·.name.isHtml tag)

/-- Close the innermost open element. -/
def pop (b : Builder) : Builder := { b with stack := b.stack.tail }

/-- Close elements up to the innermost one that passes the test, which is closed too. -/
def popThrough (b : Builder) (test : Open → Bool) : Builder :=
  { b with stack := (b.stack.dropWhile (!test ·)).tail }

/-- Close elements up to the innermost ordinary element of that tag, which is closed too. -/
def popThroughTag (b : Builder) (tag : String) : Builder := b.popThrough (·.name.isHtml tag)

/-- Close elements up to the innermost one that passes the test, which stays open. -/
def popTo (b : Builder) (test : Open → Bool) : Builder :=
  { b with stack := b.stack.dropWhile (!test ·) }

/-- Close the innermost open elements as long as their names pass the test. -/
def popImplied (b : Builder) (test : Name → Bool) : Builder :=
  { b with stack := b.stack.dropWhile (test ·.name) }

/-- Close the elements whose end tags may be left out, except those of that tag. -/
def popImpliedExcept (b : Builder) (tag : String) : Builder :=
  b.popImplied fun n => n.endsImplicitly && !n.isHtml tag

/-- Take an element off the stack, wherever it stands. -/
def forget (b : Builder) (id : NodeId) : Builder :=
  { b with stack := b.stack.eraseP (·.id == id) }

/-- Close the elements whose end tags may be left out, and then up to that tag. -/
def closeTag (b : Builder) (tag : String) : Builder :=
  (b.popImplied Name.endsImplicitly).popThroughTag tag

/-! ## Making nodes -/

/-- Make an edit. -/
def emit (b : Builder) (e : Edit) : Builder := { b with edits := b.edits.push e }

/-- The name of the node that the next edit makes. -/
def nextId (b : Builder) : NodeId := b.edits.size

/-- The place into which the children of an open element go. -/
def Open.place (o : Open) : Place :=
  if o.name.isHtml "template" then .contents o.id else .children o.id

/-- Where an item goes: to the end of a place, or before a table. -/
inductive Target
  | place (p : Place)
  | table (table below : NodeId)

/-- Where an item out of place in a table goes: into the innermost template or before the innermost
table, whichever is further in. -/
def fosterTarget (root : Open) : List Open → Target
  | [] => .place (.children root.id)
  | o :: rest =>
    if o.name.isHtml "template" then .place (.contents o.id)
    else if o.name.isHtml "table" then .table o.id (rest.headD root).id
    else fosterTarget root rest

/-- Where an item goes that belongs into an open element. -/
def targetIn (b : Builder) (o : Open) : Target :=
  if b.fostering && o.name.isTableFrame then fosterTarget b.root b.opens else .place (Open.place o)

/-- Put an item where it goes if it belongs into an open element. -/
def putIn (b : Builder) (o : Open) (item : Item) : Builder :=
  match b.targetIn o with
  | .place p => b.emit (.append p item)
  | .table table below => b.emit (.foster table below item)

/-- Put an item where it goes. -/
def put (b : Builder) (item : Item) : Builder := b.putIn b.current item

/-- Whether an annotation with these attributes holds ordinary content. -/
def isMixed (name : Name) (attrs : List Attribute) : Bool :=
  name.isAnnotation && attrs.any fun a =>
    a.name == "encoding"
      && ["text/html", "application/xhtml+xml"].contains (a.value.map Char.toLower)

/-- The open element that the next edit makes. -/
def nextOpen (b : Builder) (name : Name) (attrs : List Attribute) : Open :=
  ⟨b.nextId, name, isMixed name attrs⟩

/-- Make an element and put it where it goes, without opening it. -/
def insertClosed (b : Builder) (name : Name) (attrs : List Attribute) : Builder :=
  let id := b.nextId
  (b.emit (.element name attrs)).put (.node id)

/-- Make an element, put it where it goes, and open it. -/
def insertOpen (b : Builder) (name : Name) (attrs : List Attribute) : Builder :=
  let o := b.nextOpen name attrs
  let b := b.insertClosed name attrs
  { b with stack := o :: b.stack }

/-- Make the ordinary element of a start tag, and open it. -/
def insert (b : Builder) (tag : Tag) : Builder := b.insertOpen { tag := tag.name } tag.attrs

/-- Make the ordinary element of a start tag that has no content. -/
def insertVoid (b : Builder) (tag : Tag) : Builder := b.insertClosed { tag := tag.name } tag.attrs

/-- Make and open an ordinary element that no tag asks for. -/
def insertImplied (b : Builder) (tag : String) : Builder := b.insertOpen { tag } []

/-- Put characters where they go. -/
def putText (b : Builder) (run : List Char) : Builder := b.put (.text (String.ofList run))

/-- Make a comment and put it where it goes. -/
def putComment (b : Builder) (data : String) : Builder :=
  let id := b.nextId
  (b.emit (.comment data)).put (.node id)

/-- Make a comment and put it at the end of a place. -/
def putCommentAt (b : Builder) (place : Place) (data : String) : Builder :=
  let id := b.nextId
  (b.emit (.comment data)).emit (.append place (.node id))

/-! ## Modes -/

/-- Go on in another insertion mode. -/
def goto (b : Builder) (mode : Insertion) : Builder := { b with mode }

/-- Rule out a frameset. -/
def noFrameset (b : Builder) : Builder := { b with framesetOk := false }

/-- Rule out a frameset if some of the characters are no white space. -/
def noFramesetAfter (b : Builder) (run : List Char) : Builder :=
  if hasInk run then b.noFrameset else b

/-- The insertion mode that belongs to the open elements above the root, if they decide it. -/
def modeOf? (templates : List Insertion) : List Open → Option Insertion
  | [] => none
  | o :: rest =>
    if o.name.space != .html then modeOf? templates rest
    else match o.name.tag with
      | "select" =>
        let frame := rest.find? (·.name.isHtmlIn ["template", "table"])
        some (if frame.any (·.name.isHtml "table") then .inSelectInTable else .inSelect)
      | "td" | "th" => some .inCell
      | "tr" => some .inRow
      | "tbody" | "thead" | "tfoot" => some .inTableBody
      | "caption" => some .inCaption
      | "colgroup" => some .inColumnGroup
      | "table" => some .inTable
      | "template" => some (templates.headD .inBody)
      | "head" => some .inHead
      | "body" => some .inBody
      | "frameset" => some .inFrameset
      | _ => modeOf? templates rest

/-- Go on in the insertion mode that belongs to the open elements. -/
def resetMode (b : Builder) : Builder :=
  b.goto <| (modeOf? b.templates b.stack).getD <|
    if b.fragment then b.templates.headD .inBody
    else if b.head.isNone then .beforeHead else .afterHead

/-- Open the element of a start tag whose content is text up to the matching end tag. -/
def insertRaw (b : Builder) (tag : Tag) (kind : Raw) : Outcome :=
  let b := b.insert tag
  .signal (.raw kind) { b with resume := b.mode, mode := .text }

end Builder

end HtmlWalk.Html
