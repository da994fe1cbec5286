import HtmlWalk.Html.Builder
import HtmlWalk.Html.LayoutMode

/-!
# From tokens to edits

A document starts with an *opening*: comments and at most one doctype, which decides the layout
mode. With the root element the tree builder takes over, and there is no way back. A fragment has
no opening; it starts with a root element in the context of a template.
-/

namespace HtmlWalk.Html

/-- A document without a root element. -/
structure Opening where
  /-- Whether the source is read as if scripts could run. -/
  scripting : Bool
  /-- The layout mode, once it is decided. -/
  layout : Option Mode := none
  /-- The edits made so far. -/
  edits : Array Edit := #[]

/-- How far the tokens have been read. -/
inductive Stage
  | opening (o : Opening)
  | building (b : Builder)

namespace Opening

/-- Make an edit. -/
def emit (o : Opening) (e : Edit) : Opening := { o with edits := o.edits.push e }

/-- Decide on a layout mode. -/
def settle (o : Opening) (mode : Mode) : Opening :=
  { o.emit (.mode mode) with layout := some mode }

/-- Make a comment and put it into the document. -/
def putComment (o : Opening) (data : String) : Opening :=
  let id := o.edits.size
  (o.emit (.comment data)).emit (.append .document (.node id))

/-- A doctype declaration, which counts only once and only at the beginning. -/
def declare (o : Opening) (d : Declaration) : Opening :=
  if o.layout.isSome then o else (o.emit (.doctype d.doctype)).settle d.mode

/-- Make the root element. Without a declaration the document is laid out in quirks mode. -/
def build (o : Opening) (attrs : List Attribute) : Builder :=
  let o := if o.layout.isSome then o else o.settle .quirks
  let name : Name := { tag := "html" }
  let id := o.edits.size
  { scripting := o.scripting
    fragment := false
    layout := o.layout.getD .quirks
    root := ⟨id, name, false⟩
    mode := .beforeHead
    edits := (o.edits.push (.element name attrs)).push (.append .document (.node id)) }

/-- Deal with a piece of a token. -/
def piece (o : Opening) (p : Piece) : Stage × Option Signal :=
  let decided := if o.layout.isSome then o else o.settle .quirks
  match p with
  | .space _ => (.opening o, none)
  | .comment data => (.opening (o.putComment data), none)
  | .startTag tag =>
    if tag.name == "html" then (.building (o.build tag.attrs), none) else build
  | .endTag tag =>
    if ["head", "body", "html", "br"].contains tag.name then build else (.opening decided, none)
  | .chars _ | .null | .eof => build
where
  /-- Make the root element, and leave the piece to the tree builder. -/
  build : Stage × Option Signal :=
    let (b, signal) := (o.build []).piece p
    (.building b, signal)

end Opening

namespace Stage

/-- The stage before the first token of a document. -/
def document (scripting : Bool) : Stage := .opening { scripting }

/-- The stage before the first token of a fragment. -/
def fragment (scripting : Bool) : Stage :=
  let name : Name := { tag := "html" }
  .building
    { scripting
      fragment := true
      layout := .noQuirks
      root := ⟨0, name, false⟩
      mode := .inTemplate
      templates := [.inTemplate]
      edits := #[.element name [], .append .document (.node 0)] }

/-- The edits made so far. -/
def edits : Stage → Array Edit
  | opening o => o.edits
  | building b => b.edits

/-- Whether the innermost element is foreign. -/
def inForeign : Stage → Bool
  | opening _ => false
  | building b => b.inForeign

/-- Whether white space is treated apart. -/
def splitsText : Stage → Bool
  | opening _ => true
  | building b => b.splitsText

/-- Deal with a piece of a token. -/
def piece : Stage → Piece → Stage × Option Signal
  | opening o, p => o.piece p
  | building b, p =>
    let (b, signal) := b.piece p
    (.building b, signal)

/-- Deal with runs of characters, one after the other as long as white space is treated apart, and
then with all others at once. -/
def runs (s : Stage) : List Piece → Stage
  | [] => s
  | p :: rest =>
    if s.splitsText then runs (s.piece p).1 rest
    else (s.piece (.chars ((p :: rest).flatMap Piece.run))).1

/-- Take note of the line that has been read; tell whether a line feed is to be dropped now. -/
def enter (s : Stage) (line : Nat) : Stage × Bool :=
  match s with
  | opening o => (.opening (o.emit (.line line)), false)
  | building b =>
    let dropBreak := b.dropBreak
    (.building { b.emit (.line line) with dropBreak := false }, dropBreak)

/-- Deal with a token. -/
def token (s : Stage) (line : Nat) (token : Token) : Stage × Option Signal :=
  let (s, dropBreak) := s.enter line
  match token with
  | .declaration d =>
    match s with
    | opening o => (.opening (o.declare d), none)
    | building _ => (s, none)
  | .startTag tag => s.piece (.startTag tag)
  | .endTag tag => s.piece (.endTag tag)
  | .comment data => s.piece (.comment data)
  | .chars run =>
    let run := if dropBreak && run.head? == some '\n' then run.tail else run
    (s.runs (splitRuns run), none)
  | .null => s.piece .null
  | .flaw => (s, none)
  | .eof => s.piece .eof

end Stage

end HtmlWalk.Html
