import HtmlWalk.Html.Builder.Formatting

/-!
# Before the body

The rules from the root element to the body, with those for the elements that belong into the head
wherever they stand, and for templates.
-/

namespace HtmlWalk.Html

/-- The outcome with a change to the builder. -/
def Outcome.map (f : Builder → Builder) : Outcome → Outcome
  | done b => done (f b)
  | signal s b => signal s (f b)
  | again b => again (f b)

/-- The start tags that have the rules of the head everywhere. -/
def headTags : List String :=
  ["base", "basefont", "bgsound", "link", "meta", "noframes", "script", "style", "template",
    "title"]

namespace Builder

/-- A start tag of the root element, which is open already. -/
def startHtml (b : Builder) (tag : Tag) : Builder :=
  if b.hasOpen "template" then b else b.emit (.addAttrs b.root.id tag.attrs)

/-! ## Templates -/

/-- The start tag of a template. -/
def openTemplate (b : Builder) (tag : Tag) : Builder :=
  let b := (b.insert tag).mark.noFrameset
  { b with mode := .inTemplate, templates := .inTemplate :: b.templates }

/-- Leave the innermost template. -/
def leaveTemplate (b : Builder) : Builder :=
  let b := (b.popThroughTag "template").clearToMarker
  { b with templates := b.templates.tail }.resetMode

/-- The end tag of a template. -/
def endTemplate (b : Builder) : Builder :=
  if b.hasOpen "template" then b.leaveTemplate else b

/-- The end of the source, with templates that may be open. -/
def eofInTemplate (b : Builder) : Outcome :=
  if b.hasOpen "template" then .again b.leaveTemplate else .done b

/-! ## The head -/

/-- A start tag of an element that belongs into the head. -/
def startInHead (b : Builder) (tag : Tag) : Outcome :=
  match tag.name with
  | "title" => b.insertRaw tag .rcdata
  | "noframes" | "style" => b.insertRaw tag .rawtext
  | "script" => b.insertRaw tag .script
  | "template" => .done (b.openTemplate tag)
  | _ => .done (b.insertVoid tag)

/-- The rules in the head. -/
def inHead (b : Builder) : Piece → Outcome
  | .space run => .done (b.putText run)
  | .comment data => .done (b.putComment data)
  | .startTag tag =>
    if tag.name == "html" then .done (b.startHtml tag)
    else if headTags.contains tag.name then b.startInHead tag
    else if tag.name == "noscript" then
      if b.scripting then b.insertRaw tag .rawtext
      else .done ((b.insert tag).goto .inHeadNoscript)
    else if tag.name == "head" then .done b
    else .again (b.pop.goto .afterHead)
  | .endTag tag =>
    match tag.name with
    | "head" => .done (b.pop.goto .afterHead)
    | "template" => .done b.endTemplate
    | "body" | "html" | "br" => .again (b.pop.goto .afterHead)
    | _ => .done b
  | .chars _ | .null | .eof => .again (b.pop.goto .afterHead)

/-- The rules before the head. -/
def beforeHead (b : Builder) : Piece → Outcome
  | .space _ => .done b
  | .comment data => .done (b.putComment data)
  | .startTag tag =>
    if tag.name == "html" then .done (b.startHtml tag)
    else if tag.name == "head" then .done (open_ b tag)
    else .again (open_ b { name := "head" })
  | .endTag tag =>
    if ["head", "body", "html", "br"].contains tag.name then .again (open_ b { name := "head" })
    else .done b
  | .chars _ | .null | .eof => .again (open_ b { name := "head" })
where
  /-- Open the head. -/
  open_ (b : Builder) (tag : Tag) : Builder :=
    { b.insert tag with head := some b.nextId, mode := .inHead }

/-- The rules in the alternative for readers without scripts, in the head. -/
def inHeadNoscript (b : Builder) (p : Piece) : Outcome :=
  match p with
  | .space _ | .comment _ => b.inHead p
  | .startTag tag =>
    if tag.name == "html" then .done (b.startHtml tag)
    else if ["basefont", "bgsound", "link", "meta", "noframes", "style"].contains tag.name then
      b.startInHead tag
    else if ["head", "noscript"].contains tag.name then .done b
    else .again (b.pop.goto .inHead)
  | .endTag tag =>
    match tag.name with
    | "noscript" => .done (b.pop.goto .inHead)
    | "br" => .again (b.pop.goto .inHead)
    | _ => .done b
  | .chars _ | .null | .eof => .again (b.pop.goto .inHead)

/-- The rules after the head. What belongs into the head still goes there. -/
def afterHead (b : Builder) : Piece → Outcome
  | .space run => .done (b.putText run)
  | .comment data => .done (b.putComment data)
  | .startTag tag =>
    if tag.name == "html" then .done (b.startHtml tag)
    else if tag.name == "body" then .done ((b.insert tag).noFrameset.goto .inBody)
    else if tag.name == "frameset" then .done ((b.insert tag).goto .inFrameset)
    else if headTags.contains tag.name then
      match b.head with
      | some head =>
        let b := { b with stack := ⟨head, { tag := "head" }, false⟩ :: b.stack }
        (b.startInHead tag).map (·.forget head)
      | none => b.startInHead tag
    else if tag.name == "head" then .done b
    else .again ((b.insertImplied "body").goto .inBody)
  | .endTag tag =>
    match tag.name with
    | "template" => .done b.endTemplate
    | "body" | "html" | "br" => .again ((b.insertImplied "body").goto .inBody)
    | _ => .done b
  | .chars _ | .null | .eof => .again ((b.insertImplied "body").goto .inBody)

end Builder

end HtmlWalk.Html
