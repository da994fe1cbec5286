import HtmlWalk.Html.Builder.Head
import HtmlWalk.Html.ForeignNames

/-!
# In the body

The rules for most content. Paragraphs end where a block begins, list items where the next one
begins, and formatting elements that were closed by force are opened again before other content.
-/

namespace HtmlWalk.Html

/-- Whether a tag is of a control that is not shown. -/
def Tag.isHidden (tag : Tag) : Bool :=
  (Attribute.value? "type" tag.attrs).any fun v => v.map Char.toLower == "hidden"

/-- The start tags of blocks: each ends an open paragraph. -/
def blockTags : List String :=
  ["address", "article", "aside", "blockquote", "center", "details", "dialog", "dir", "div", "dl",
    "fieldset", "figcaption", "figure", "footer", "header", "hgroup", "main", "menu", "nav", "ol",
    "p", "search", "section", "summary", "ul"]

/-- The end tags that close everything in their element. -/
def blockEndTags : List String :=
  ["address", "article", "aside", "blockquote", "button", "center", "details", "dialog", "dir",
    "div", "dl", "fieldset", "figcaption", "figure", "footer", "header", "hgroup", "listing",
    "main", "menu", "nav", "ol", "pre", "search", "section", "summary", "ul"]

/-- The tags of headings. -/
def headingTags : List String := ["h1", "h2", "h3", "h4", "h5", "h6"]

/-- The tags of formatting elements but for links and unbroken runs. -/
def formattingTags : List String :=
  ["b", "big", "code", "em", "font", "i", "s", "small", "strike", "strong", "tt", "u"]

/-- The tags of embedded objects, which formatting does not cross. -/
def objectTags : List String := ["applet", "marquee", "object"]

/-- The tags of elements without content that stand in running text. -/
def voidTags : List String := ["area", "br", "embed", "img", "input", "keygen", "wbr"]

/-- The start tags that count for nothing in the body. -/
def strayTags : List String :=
  ["caption", "col", "colgroup", "frame", "head", "tbody", "td", "tfoot", "th", "thead", "tr"]

namespace Builder

/-- End an open paragraph. -/
def endParagraph (b : Builder) : Builder :=
  if b.inScope Name.boundsButtonScope "p" then b.popThroughTag "p" else b

/-- Open the element of a start tag, in the formatting that belongs around it. -/
def insertFormatted (b : Builder) (tag : Tag) : Builder := b.reopenFormatting.insert tag

/-- The body, if it is open. -/
def body? (b : Builder) : Option Open := b.stack.getLast?.filter (·.name.isHtml "body")

/-- The open list item or description that the start tag of the next one ends. -/
def itemToEnd? (tags : List String) : List Open → Option String
  | [] => none
  | o :: rest =>
    if o.name.isHtmlIn tags then some o.name.tag
    else if o.name.isSpecial && !o.name.isHtmlIn ["address", "div", "p"] then none
    else itemToEnd? tags rest

/-- The start tag of a list item or a description, which ends an open one. -/
def startItem (b : Builder) (tag : Tag) (ended : List String) : Builder :=
  let b := b.noFrameset
  let b := match itemToEnd? ended b.stack with
    | some open_ => b.popThroughTag open_
    | none => b
  b.endParagraph.insert tag

/-- End an open link, because another one begins. -/
def endLink (b : Builder) : Builder :=
  match b.recentFormatting.find? (·.tag?.any (·.name == "a")) with
  | some (.element id _) => ((b.adopt "a").unformat id).forget id
  | _ => b

/-- The start tag of the body, which is open already. -/
def startBody (b : Builder) (tag : Tag) : Builder :=
  match b.body? with
  | some body =>
    if b.hasOpen "template" then b else b.noFrameset.emit (.addAttrs body.id tag.attrs)
  | none => b

/-- The start tag of a frameset, which takes the place of the body if nothing was said there. -/
def startFrameset (b : Builder) (tag : Tag) : Builder :=
  match b.body? with
  | some body =>
    if b.framesetOk then
      ({ b.emit (.detach body.id) with stack := [] }.insert tag).goto .inFrameset
    else b
  | none => b

/-- The start tag of a form. Forms do not stand in forms. -/
def startForm (b : Builder) (tag : Tag) : Builder :=
  let inTemplate := b.hasOpen "template"
  if b.form.isSome && !inTemplate then b
  else
    let b := b.endParagraph
    let id := b.nextId
    let b := b.insert tag
    if inTemplate then b else { b with form := some id }

/-- The end tag of a form. -/
def endForm (b : Builder) : Builder :=
  if b.hasOpen "template" then
    if b.inScope Name.boundsScope "form" then b.popThroughTag "form" else b
  else
    match b.form with
    | none => b
    | some id =>
      let b := { b with form := none }
      if b.hasInScope Name.boundsScope (·.id == id) then
        (b.popImplied Name.endsImplicitly).forget id
      else b

/-- The start tag of a selection list. -/
def startSelect (b : Builder) (tag : Tag) : Builder :=
  let b := (b.insertFormatted tag).noFrameset
  b.goto <| match b.mode with
    | .inTable | .inCaption | .inTableBody | .inRow | .inCell => .inSelectInTable
    | _ => .inSelect

/-- A start tag of an element without content in running text. -/
def startVoid (b : Builder) (tag : Tag) : Builder :=
  let b := b.reopenFormatting.insertVoid tag
  if tag.name == "input" && tag.isHidden then b else b.noFrameset

/-- The start tag of an annotation of small type. -/
def startRuby (b : Builder) (tag : Tag) : Builder :=
  let b :=
    if !b.inScope Name.boundsScope "ruby" then b
    else if ["rb", "rtc"].contains tag.name then b.popImplied Name.endsImplicitly
    else b.popImpliedExcept "rtc"
  b.insert tag

/-- The attributes of the root of a drawing or formula. -/
def foreignAttrs (space : Space) (tag : Tag) : List Attribute :=
  let tag := match space with
    | .html => tag
    | .mathml => tag.renameAttrs (respell formulaAttrs)
    | .svg => tag.renameAttrs (respell drawingAttrs)
  (tag.renameAttrs localName).attrs

/-- Open the element of a start tag in foreign content. -/
def insertForeign (b : Builder) (space : Space) (tag : Tag) : Builder :=
  let name : Name := ⟨space, tag.name⟩
  let attrs := foreignAttrs space tag
  if tag.selfClosing then b.insertClosed name attrs else b.insertOpen name attrs

/-- The start tags in the body. -/
def startInBody (b : Builder) (start : Tag) : Outcome :=
  let tag := if start.name == "image" then { start with name := "img" } else start
  let name := tag.name
  if name == "html" then .done (b.startHtml tag)
  else if headTags.contains name then b.startInHead tag
  else if name == "body" then .done (b.startBody tag)
  else if name == "frameset" then .done (b.startFrameset tag)
  else if blockTags.contains name then .done (b.endParagraph.insert tag)
  else if headingTags.contains name then
    let b := b.endParagraph
    .done ((if b.current.name.isHeading then b.pop else b).insert tag)
  else if ["pre", "listing"].contains name then
    .done { (b.endParagraph.insert tag).noFrameset with dropBreak := true }
  else if name == "form" then .done (b.startForm tag)
  else if name == "li" then .done (b.startItem tag ["li"])
  else if ["dd", "dt"].contains name then .done (b.startItem tag ["dd", "dt"])
  else if name == "plaintext" then .signal .plaintext (b.endParagraph.insert tag)
  else if name == "button" then
    let b := if b.inScope Name.boundsScope "button" then b.popThroughTag "button" else b
    .done (b.insertFormatted tag).noFrameset
  else if name == "a" then .done (b.endLink.reopenFormatting.insertFormatting tag)
  else if formattingTags.contains name then .done (b.reopenFormatting.insertFormatting tag)
  else if name == "nobr" then
    let b := b.reopenFormatting
    let b := if b.inScope Name.boundsScope "nobr" then (b.adopt "nobr").reopenFormatting else b
    .done (b.insertFormatting tag)
  else if objectTags.contains name then .done (b.insertFormatted tag).mark.noFrameset
  else if name == "table" then
    let b := if b.layout == .quirks then b else b.endParagraph
    .done ((b.insert tag).noFrameset.goto .inTable)
  else if voidTags.contains name then .done (b.startVoid tag)
  else if ["param", "source", "track"].contains name then .done (b.insertVoid tag)
  else if name == "hr" then .done (b.endParagraph.insertVoid tag).noFrameset
  else if name == "textarea" then
    { b with dropBreak := true }.noFrameset.insertRaw tag .rcdata
  else if name == "xmp" then b.endParagraph.reopenFormatting.noFrameset.insertRaw tag .rawtext
  else if name == "iframe" then b.noFrameset.insertRaw tag .rawtext
  else if name == "noembed" || (name == "noscript" && b.scripting) then b.insertRaw tag .rawtext
  else if name == "select" then .done (b.startSelect tag)
  else if ["optgroup", "option"].contains name then
    .done ((if b.currentIs "option" then b.pop else b).insertFormatted tag)
  else if ["rb", "rtc", "rp", "rt"].contains name then .done (b.startRuby tag)
  else if name == "math" then .done (b.insertForeign .mathml tag)
  else if name == "svg" then .done (b.insertForeign .svg tag)
  else if strayTags.contains name then .done b
  else .done (b.insertFormatted tag)

/-- The end tags in the body. -/
def endInBody (b : Builder) (tag : Tag) : Outcome :=
  let name := tag.name
  if name == "template" then .done b.endTemplate
  else if name == "body" then
    .done (if b.inScope Name.boundsScope "body" then b.goto .afterBody else b)
  else if name == "html" then
    if b.inScope Name.boundsScope "body" then .again (b.goto .afterBody) else .done b
  else if blockEndTags.contains name || objectTags.contains name then
    if b.inScope Name.boundsScope name then
      let b := b.popThroughTag name
      .done (if objectTags.contains name then b.clearToMarker else b)
    else .done b
  else if name == "form" then .done b.endForm
  else if name == "p" then
    let b := if b.inScope Name.boundsButtonScope "p" then b else b.insertImplied "p"
    .done (b.popThroughTag "p")
  else if ["li", "dd", "dt"].contains name then
    let bound := if name == "li" then Name.boundsListScope else Name.boundsScope
    .done (if b.inScope bound name then b.popThroughTag name else b)
  else if headingTags.contains name then
    .done (if b.hasInScope Name.boundsScope (·.name.isHeading)
      then b.popThrough (·.name.isHeading) else b)
  else if formattingTags.contains name || ["a", "nobr"].contains name then .done (b.adopt name)
  else if name == "br" then .done (b.startVoid { name := "br" })
  else .done (b.endPlain name)

/-- Characters in the body. -/
def charsInBody (b : Builder) (run : List Char) : Builder :=
  (b.reopenFormatting.noFramesetAfter run).putText run

/-- The rules in the body. -/
def inBody (b : Builder) : Piece → Outcome
  | .null => .done b
  | .space run | .chars run => .done (b.charsInBody run)
  | .comment data => .done (b.putComment data)
  | .startTag tag => b.startInBody tag
  | .endTag tag => b.endInBody tag
  | .eof => if b.templates.isEmpty then .done b else b.eofInTemplate

end Builder

end HtmlWalk.Html
