import HtmlWalk.Html.Builder.Tables

/-!
# Selection lists, templates, framesets, and the end

The rules of the remaining insertion modes. A selection list ignores most tags; a template takes on
the rules that its first content asks for; after the body and after framesets there is little but
comments.
-/

namespace HtmlWalk.Html.Builder

/-! ## Selection lists -/

/-- Leave a selection list. -/
def leaveSelect (b : Builder) : Builder := (b.popThroughTag "select").resetMode

/-- Close an open option. -/
def endOption (b : Builder) : Builder := if b.currentIs "option" then b.pop else b

/-- Close an open group of options. -/
def endGroup (b : Builder) : Builder := if b.currentIs "optgroup" then b.pop else b

/-- The rules in a selection list. -/
def inSelect (b : Builder) (p : Piece) : Outcome :=
  let inside := b.inScope Name.boundsSelectScope "select"
  match p with
  | .null => .done b
  | .space run | .chars run => .done (b.putText run)
  | .comment data => .done (b.putComment data)
  | .startTag tag =>
    match tag.name with
    | "html" => .done (b.startHtml tag)
    | "option" => .done (b.endOption.insert tag)
    | "optgroup" => .done (b.endOption.endGroup.insert tag)
    | "hr" => .done (b.endOption.endGroup.insertVoid tag)
    | "select" => .done (if inside then b.leaveSelect else b)
    | "input" | "keygen" | "textarea" => if inside then .again b.leaveSelect else .done b
    | "script" | "template" => b.startInHead tag
    | _ => .done b
  | .endTag tag =>
    match tag.name with
    | "optgroup" =>
      let b := if (b.pop.currentIs "optgroup") then b.endOption else b
      .done b.endGroup
    | "option" => .done b.endOption
    | "select" => .done (if inside then b.leaveSelect else b)
    | "template" => .done b.endTemplate
    | _ => .done b
  | .eof => b.inBody p

/-- The rules in a selection list in a table, which the parts of the table end. -/
def inSelectInTable (b : Builder) (p : Piece) : Outcome :=
  let tags := sectionTags ++ ["caption", "table", "tr", "td", "th"]
  match p with
  | .startTag tag => if tags.contains tag.name then .again b.leaveSelect else b.inSelect p
  | .endTag tag =>
    if tags.contains tag.name then
      if b.inScope Name.boundsTableScope tag.name then .again b.leaveSelect else .done b
    else b.inSelect p
  | _ => b.inSelect p

/-! ## Templates -/

/-- Take on another insertion mode for the rest of the template. -/
def turnTemplate (b : Builder) (mode : Insertion) : Outcome :=
  .again { b with mode, templates := mode :: b.templates.tail }

/-- The rules at the start of a template. -/
def inTemplate (b : Builder) (p : Piece) : Outcome :=
  match p with
  | .null => .done b
  | .space _ | .chars _ | .comment _ => b.inBody p
  | .startTag tag =>
    if headTags.contains tag.name then b.startInHead tag
    else b.turnTemplate <|
      if (["caption", "colgroup"] ++ sectionTags).contains tag.name then .inTable
      else if tag.name == "col" then .inColumnGroup
      else if tag.name == "tr" then .inTableBody
      else if ["td", "th"].contains tag.name then .inRow
      else .inBody
  | .endTag tag => .done (if tag.name == "template" then b.endTemplate else b)
  | .eof => b.eofInTemplate

/-! ## Text -/

/-- The rules in text that only the matching end tag ends. -/
def inText (b : Builder) : Piece → Outcome
  | .space run | .chars run => .done (b.putText run)
  | .endTag tag =>
    let b := b.pop.goto b.resume
    if tag.name == "script" then .signal .scriptEnd b else .done b
  | .eof => .again (b.pop.goto b.resume)
  | .null | .comment _ | .startTag _ => .done b

/-! ## After the body -/

/-- The rules after the body. -/
def afterBody (b : Builder) (p : Piece) : Outcome :=
  match p with
  | .space _ => b.inBody p
  | .comment data => .done (b.putCommentAt (.children b.root.id) data)
  | .startTag tag => if tag.name == "html" then .done (b.startHtml tag) else back
  | .endTag tag =>
    if tag.name == "html" then .done (if b.fragment then b else b.goto .afterAfterBody)
    else back
  | .eof => .done b
  | .chars _ | .null => back
where
  /-- Go back to the body. -/
  back : Outcome := .again (b.goto .inBody)

/-- The rules after the root element. -/
def afterAfterBody (b : Builder) (p : Piece) : Outcome :=
  match p with
  | .space _ => b.inBody p
  | .comment data => .done (b.putCommentAt .document data)
  | .startTag tag => if tag.name == "html" then .done (b.startHtml tag) else back
  | .eof => .done b
  | .endTag _ | .chars _ | .null => back
where
  /-- Go back to the body. -/
  back : Outcome := .again (b.goto .inBody)

/-! ## Framesets -/

/-- The rules in a frameset. -/
def inFrameset (b : Builder) : Piece → Outcome
  | .space run => .done (b.putText run)
  | .comment data => .done (b.putComment data)
  | .startTag tag =>
    match tag.name with
    | "html" => .done (b.startHtml tag)
    | "frameset" => .done (b.insert tag)
    | "frame" => .done (b.insertVoid tag)
    | "noframes" => b.startInHead tag
    | _ => .done b
  | .endTag tag =>
    if tag.name == "frameset" && !b.stack.isEmpty then
      let b := b.pop
      .done (if b.fragment || b.currentIs "frameset" then b else b.goto .afterFrameset)
    else .done b
  | .chars _ | .null | .eof => .done b

/-- The rules after a frameset. -/
def afterFrameset (b : Builder) : Piece → Outcome
  | .space run => .done (b.putText run)
  | .comment data => .done (b.putComment data)
  | .startTag tag =>
    match tag.name with
    | "html" => .done (b.startHtml tag)
    | "noframes" => b.startInHead tag
    | _ => .done b
  | .endTag tag => .done (if tag.name == "html" then b.goto .afterAfterFrameset else b)
  | .chars _ | .null | .eof => .done b

/-- The rules after the root element of a frameset document. -/
def afterAfterFrameset (b : Builder) (p : Piece) : Outcome :=
  match p with
  | .space _ => b.inBody p
  | .comment data => .done (b.putCommentAt .document data)
  | .startTag tag =>
    match tag.name with
    | "html" => .done (b.startHtml tag)
    | "noframes" => b.startInHead tag
    | _ => .done b
  | .endTag _ | .chars _ | .null | .eof => .done b

end HtmlWalk.Html.Builder
