import HtmlWalk.Html.Builder.Body

/-!
# In tables

The rules between the parts of a table. The parts that were left out are put in; what is out of
place is dealt with as in the body, but goes before the table. Characters are kept until the next
other piece, because one character that is no white space moves all of them out.
-/

namespace HtmlWalk.Html.Builder

/-- The tags of the parts of a table that hold rows. -/
def sectionTags : List String := ["tbody", "tfoot", "thead"]

/-- The tags of the parts of a table other than rows and cells. -/
def partTags : List String := ["caption", "col", "colgroup"] ++ sectionTags

/-- Deal with a piece as in the body, with what is out of place going before the table. -/
def fosterInBody (b : Builder) (p : Piece) : Outcome :=
  ({ b with fostering := true }.inBody p).map ({ · with fostering := false })

/-- Characters between the parts of a table. -/
def charsInTable (b : Builder) (p : Piece) : Outcome :=
  if b.current.name.isTableFrame then .again { b with resume := b.mode, mode := .inTableText }
  else b.fosterInBody p

/-- The end tag of a table. -/
def endTable (b : Builder) : Builder := (b.popThroughTag "table").resetMode

/-- The start tags in a table. -/
def startInTable (b : Builder) (tag : Tag) : Outcome :=
  let name := tag.name
  let cleared := b.popTo (·.name.holdsSections)
  if name == "caption" then .done ((cleared.mark.insert tag).goto .inCaption)
  else if name == "colgroup" then .done ((cleared.insert tag).goto .inColumnGroup)
  else if name == "col" then .again ((cleared.insertImplied "colgroup").goto .inColumnGroup)
  else if sectionTags.contains name then .done ((cleared.insert tag).goto .inTableBody)
  else if ["td", "th", "tr"].contains name then
    .again ((cleared.insertImplied "tbody").goto .inTableBody)
  else if name == "table" then
    if b.inScope Name.boundsTableScope "table" then .again b.endTable else .done b
  else if ["style", "script", "template"].contains name then b.startInHead tag
  else if name == "input" && tag.isHidden then .done (b.insertVoid tag)
  else if name == "form" then
    if b.hasOpen "template" || b.form.isSome then .done b
    else .done { b.insertVoid tag with form := some b.nextId }
  else b.fosterInBody (.startTag tag)

/-- The end tags in a table. -/
def endInTable (b : Builder) (tag : Tag) : Outcome :=
  let name := tag.name
  if name == "table" then
    .done (if b.inScope Name.boundsTableScope "table" then b.endTable else b)
  else if (partTags ++ ["body", "html", "td", "th", "tr"]).contains name then .done b
  else if name == "template" then .done b.endTemplate
  else b.fosterInBody (.endTag tag)

/-- The rules in a table. -/
def inTable (b : Builder) (p : Piece) : Outcome :=
  match p with
  | .null | .space _ | .chars _ => b.charsInTable p
  | .comment data => .done (b.putComment data)
  | .startTag tag => b.startInTable tag
  | .endTag tag => b.endInTable tag
  | .eof => b.inBody p

/-- Place the characters that were kept. -/
def placeTableText (b : Builder) : Builder :=
  let runs := b.tableText.reverse
  let b := { b with tableText := [] }
  if runs.any hasInk then
    let b := { b with fostering := true }
    { runs.foldl charsInBody b with fostering := false }
  else runs.foldl putText b

/-- The rules for characters in a table. -/
def inTableText (b : Builder) : Piece → Outcome
  | .null => .done b
  | .space run | .chars run => .done { b with tableText := run :: b.tableText }
  | _ => .again (b.placeTableText.goto b.resume)

/-- The rules in a caption. -/
def inCaption (b : Builder) (p : Piece) : Outcome :=
  match p with
  | .startTag tag =>
    if (partTags ++ ["td", "th", "tr"]).contains tag.name then leave else b.inBody p
  | .endTag tag =>
    match tag.name with
    | "caption" => if inside then .done left else .done b
    | "table" => leave
    | name =>
      if (partTags ++ ["body", "html", "td", "th", "tr"]).contains name then .done b
      else b.inBody p
  | _ => b.inBody p
where
  /-- Whether a caption can be left. -/
  inside : Bool := b.inScope Name.boundsTableScope "caption"
  /-- The builder outside the caption. -/
  left : Builder := ((b.popThroughTag "caption").clearToMarker).goto .inTable
  /-- Leave the caption, if there is one, and deal with the piece outside. -/
  leave : Outcome := if inside then .again left else .done b

/-- The rules in a column group. -/
def inColumnGroup (b : Builder) (p : Piece) : Outcome :=
  match p with
  | .space run => .done (b.putText run)
  | .comment data => .done (b.putComment data)
  | .startTag tag =>
    match tag.name with
    | "html" => .done (b.startHtml tag)
    | "col" => .done (b.insertVoid tag)
    | "template" => b.startInHead tag
    | _ => leave
  | .endTag tag =>
    match tag.name with
    | "colgroup" => .done (if b.currentIs "colgroup" then b.pop.goto .inTable else b)
    | "col" => .done b
    | "template" => .done b.endTemplate
    | _ => leave
  | .eof => b.inBody p
  | .chars _ | .null => leave
where
  /-- Leave the column group, if there is one, and deal with the piece outside. -/
  leave : Outcome := if b.currentIs "colgroup" then .again (b.pop.goto .inTable) else .done b

/-- Leave the part of the table that holds rows. -/
def leaveSection (b : Builder) : Builder := ((b.popTo (·.name.holdsRows)).pop).goto .inTable

/-- The rules in a part of a table that holds rows. -/
def inTableBody (b : Builder) (p : Piece) : Outcome :=
  let cleared := b.popTo (·.name.holdsRows)
  let leave : Outcome :=
    if b.hasInScope Name.boundsTableScope (·.name.isHtmlIn ["table", "tbody", "tfoot"]) then
      .again b.leaveSection
    else .done b
  match p with
  | .startTag tag =>
    if tag.name == "tr" then .done ((cleared.insert tag).goto .inRow)
    else if ["th", "td"].contains tag.name then .again ((cleared.insertImplied "tr").goto .inRow)
    else if partTags.contains tag.name then leave
    else b.inTable p
  | .endTag tag =>
    if sectionTags.contains tag.name then
      .done (if b.inScope Name.boundsTableScope tag.name then b.leaveSection else b)
    else if tag.name == "table" then leave
    else if ["body", "caption", "col", "colgroup", "html", "td", "th", "tr"].contains tag.name then
      .done b
    else b.inTable p
  | _ => b.inTable p

/-- Leave a row. -/
def leaveRow (b : Builder) : Builder := ((b.popTo (·.name.holdsCells)).pop).goto .inTableBody

/-- The rules in a row. -/
def inRow (b : Builder) (p : Piece) : Outcome :=
  let inside := b.inScope Name.boundsTableScope "tr"
  let leave : Outcome := if inside then .again b.leaveRow else .done b
  match p with
  | .startTag tag =>
    if ["th", "td"].contains tag.name then
      .done (((b.popTo (·.name.holdsCells)).insert tag).goto .inCell).mark
    else if (partTags ++ ["tr"]).contains tag.name then leave
    else b.inTable p
  | .endTag tag =>
    if tag.name == "tr" then .done (if inside then b.leaveRow else b)
    else if tag.name == "table" then leave
    else if sectionTags.contains tag.name then
      if b.inScope Name.boundsTableScope tag.name then leave else .done b
    else if ["body", "caption", "col", "colgroup", "html", "td", "th"].contains tag.name then
      .done b
    else b.inTable p
  | _ => b.inTable p

/-- Leave a cell. -/
def leaveCell (b : Builder) : Builder :=
  let b := b.popImplied Name.endsImplicitly
  (b.popThrough (·.name.isCell)).clearToMarker.goto .inRow

/-- The rules in a cell. -/
def inCell (b : Builder) (p : Piece) : Outcome :=
  match p with
  | .startTag tag =>
    if (partTags ++ ["td", "th", "tr"]).contains tag.name then
      if b.hasInScope Name.boundsTableScope (·.name.isCell) then .again b.leaveCell else .done b
    else b.inBody p
  | .endTag tag =>
    let name := tag.name
    if ["td", "th"].contains name then
      .done (if b.inScope Name.boundsTableScope name
        then (b.popThroughTag name).clearToMarker.goto .inRow else b)
    else if ["body", "caption", "col", "colgroup", "html"].contains name then .done b
    else if (sectionTags ++ ["table", "tr"]).contains name then
      if b.inScope Name.boundsTableScope name then .again b.leaveCell else .done b
    else b.inBody p
  | _ => b.inBody p

end HtmlWalk.Html.Builder
