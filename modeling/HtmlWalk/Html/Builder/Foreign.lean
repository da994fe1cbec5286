import HtmlWalk.Html.Builder.Others

/-!
# Foreign content

The rules inside drawings and formulas. They hold until an element is reached that may contain
ordinary content, and they are left as soon as a tag comes that can only be ordinary.
-/

namespace HtmlWalk.Html

/-- The start tags that end foreign content. -/
def breakoutTags : List String :=
  ["b", "big", "blockquote", "body", "br", "center", "code", "dd", "div", "dl", "dt", "em",
    "embed", "h1", "h2", "h3", "h4", "h5", "h6", "head", "hr", "i", "img", "li", "listing", "menu",
    "meta", "nobr", "ol", "p", "pre", "ruby", "s", "small", "span", "strong", "strike", "sub",
    "sup", "table", "tt", "u", "ul", "var"]

/-- Whether a start tag ends foreign content. -/
def Tag.breaksOut (tag : Tag) : Bool :=
  breakoutTags.contains tag.name
    || (tag.name == "font" && tag.attrs.any fun a => ["color", "face", "size"].contains a.name)

namespace Builder

/-- Deal with a piece by the rules of the insertion mode. -/
def byMode (b : Builder) (p : Piece) : Outcome :=
  match b.mode with
  | .beforeHead => b.beforeHead p
  | .inHead => b.inHead p
  | .inHeadNoscript => b.inHeadNoscript p
  | .afterHead => b.afterHead p
  | .inBody => b.inBody p
  | .text => b.inText p
  | .inTable => b.inTable p
  | .inTableText => b.inTableText p
  | .inCaption => b.inCaption p
  | .inColumnGroup => b.inColumnGroup p
  | .inTableBody => b.inTableBody p
  | .inRow => b.inRow p
  | .inCell => b.inCell p
  | .inSelect => b.inSelect p
  | .inSelectInTable => b.inSelectInTable p
  | .inTemplate => b.inTemplate p
  | .afterBody => b.afterBody p
  | .inFrameset => b.inFrameset p
  | .afterFrameset => b.afterFrameset p
  | .afterAfterBody => b.afterAfterBody p
  | .afterAfterFrameset => b.afterAfterFrameset p

/-- The element that decides whether content is foreign: the innermost one, or, at the root of a
fragment, the template around the fragment. -/
def deciding (b : Builder) : Open :=
  if b.fragment && b.stack.isEmpty then { b.root with name := { tag := "template" } }
  else b.current

/-- Whether the innermost element is foreign. -/
def inForeign (b : Builder) : Bool := b.deciding.name.space != .html

/-- Whether a piece is dealt with as foreign content. -/
def isForeign (b : Builder) (p : Piece) : Bool :=
  let o := b.deciding
  let ordinary := match p with
    | .eof => true
    | .space _ | .chars _ | .null =>
      o.name.isMathText || o.name.isDrawingText || (o.name.isAnnotation && o.mixed)
    | .startTag tag =>
      (o.name.isMathText && tag.name != "mglyph" && tag.name != "malignmark")
        || o.name.isDrawingText || (o.name.isAnnotation && (o.mixed || tag.name == "svg"))
    | .endTag _ | .comment _ => false
  o.name.space != .html && !ordinary

/-- Leave foreign content, and deal with the piece by the rules of the insertion mode. -/
def breakOut (b : Builder) (p : Piece) : Outcome :=
  (b.popTo fun o => o.name.space == .html || o.name.isMathText || o.name.isDrawingText).byMode p

/-- The end tag of a foreign element, which closes the innermost open element of that name. -/
def endForeign (b : Builder) (tag : Tag) : Outcome :=
  let named (o : Open) := o.name.tag.map Char.toLower == tag.name.map Char.toLower
  let foreign := b.stack.head?.toList ++ b.stack.tail.takeWhile (·.name.space != .html)
  if foreign.any named then .done (b.popThrough named)
  else if foreign.length < b.stack.length then b.byMode (.endTag tag)
  else .done b

/-- The rules in foreign content. -/
def inForeignContent (b : Builder) (p : Piece) : Outcome :=
  match p with
  | .null => .done (b.putText [replacement])
  | .space run | .chars run => .done ((b.noFramesetAfter run).putText run)
  | .comment data => .done (b.putComment data)
  | .startTag tag =>
    if tag.breaksOut then b.breakOut p
    else
      let space := b.deciding.name.space
      let name := if space == .svg then respell drawingTags tag.name else tag.name
      .done (b.insertForeign space { tag with name })
  | .endTag tag => if ["br", "p"].contains tag.name then b.breakOut p else b.endForeign tag
  | .eof => .done b

end Builder

end HtmlWalk.Html
