import HtmlWalk.Html.Tokenizer.Markup

/-!
# The tokenizer

`Tokenizer.step` reads one character, `Tokenizer.pause` ends a piece of the source, and
`Tokenizer.finish` ends the source. What was held back is handed over then, as far as it counts
as anything.

Three places look at a character before it is taken: a character reference, which may give back
what it has read; the space before an attribute value; and the two places where a keyword may
stand. There line ends are not counted until the character is taken; before an attribute value
they are never counted.
-/

namespace HtmlWalk.Html.Tokenizer

/-- Read a character whose line end, if it is one, has been counted. -/
def accept (t : Tokenizer) (c : Char) (alone : Bool) : Tokenizer :=
  match t.state with
  | .data => t.readData c alone
  | .raw kind => t.readRaw kind c alone
  | .plaintext => t.readPlaintext c alone
  | .tagOpen => t.readTagOpen c
  | .endTagOpen => t.readEndTagOpen c
  | .tagName => t.readTagName c
  | .rawLessThan kind => t.readRawLessThan kind c
  | .rawEndTagOpen kind => t.readRawEndTagOpen kind c
  | .rawEndTagName kind => t.readRawEndTagName kind c
  | .escapeStart e => t.readEscapeStart e c
  | .escapeStartDash => t.readEscapeStartDash c
  | .escapedDash e => t.readEscapedDash e false c
  | .escapedDashDash e => t.readEscapedDash e true c
  | .doubleEscapeEnd => t.readEscapeWord c .single .double .double
  | .beforeAttrName => t.readBeforeAttrName c
  | .attrName => t.readAttrName c
  | .afterAttrName => t.readAfterAttrName c
  | .beforeAttrValue => t
  | .attrValue quote => t.readAttrValue quote c
  | .afterAttrValue => t.readAfterAttrValue c
  | .selfClosing => t.readSelfClosing c
  | .markup => t.startBogusComment c
  | .bogusComment => t.readBogusComment c
  | .commentStart | .commentStartDash | .comment | .commentEndDash | .commentEnd
  | .commentEndBang => t.readComment c
  | .doctype => (t.goto .beforeDoctypeName).readBeforeDoctypeName c
  | .beforeDoctypeName => t.readBeforeDoctypeName c
  | .doctypeName => t.readDoctypeName c
  | .afterDoctypeName => t.readAfterDoctypeName c
  | .afterKeyword id | .beforeIdentifier id => t.readBeforeIdentifier id c
  | .identifier id mark => t.readIdentifier id mark c
  | .afterIdentifier .publicId | .betweenIdentifiers => t.readAfterPublicId c
  | .afterIdentifier .systemId => t.readAfterSystemId c
  | .bogusDoctype => t.readBogusDoctype c
  | .cdata => t.readCdata c
  | .cdataBracket => t.readCdataBracket c
  | .cdataEnd => t.readCdataEnd c

/-- Take a character of the source. The three line ends of the source all become a line feed, and
each is counted once. -/
def take (t : Tokenizer) (c : Char) : Tokenizer :=
  let t := if t.state.joins c then t else t.flush
  if t.afterReturn && c == '\n' then { t with afterReturn := false, alone := true }
  else
    let alone := t.exact || t.alone || t.afterReturn || c == '\r'
    let ends := c == '\r' || c == '\n'
    let t := { t with
      afterReturn := c == '\r'
      alone := false
      line := if ends then t.line + 1 else t.line }
    t.accept (if ends then '\n' else c) alone

/-! ## Character references -/

/-- Whether the tokenizer reads an attribute value. -/
def inAttrValue (t : Tokenizer) : Bool :=
  match t.state with
  | .attrValue _ => true
  | _ => false

/-- Put the characters of a reference where the reference stood. -/
def putReference (t : Tokenizer) (cs : List Char) : Tokenizer :=
  if t.inAttrValue then t.pushValue cs else t.emitEach cs

/-- End a reference, and read again what it gives back. -/
def endReference (t : Tokenizer) (e : Reference.Ended) : Tokenizer :=
  let t := { t with reference := none }
  let t := (if e.flaw then t.emit .flaw else t).putReference e.chars
  if e.again.isEmpty then t else (e.again.foldl take t).flush

/-- Read one more character of a reference. -/
def readReference (t : Tokenizer) (r : Reference) (c : Char) : Tokenizer :=
  match r.read t.inAttrValue c with
  | .more r => { t with reference := some r }
  | .ended e => if e.unread then (t.endReference e).take c else t.endReference e

/-! ## Keywords -/

/-- Whether a keyword starts with what has been read ahead. -/
def begins (ahead : List Char) (keyword : String) (anyCase : Bool) : Bool :=
  (if anyCase then ahead.map Char.toLower else ahead).isPrefixOf keyword.toList

/-- Take what has been read ahead, because it is no keyword. -/
def takeAhead (t : Tokenizer) : Tokenizer :=
  (t.ahead.reverse.foldl take { t with ahead := [] }).flush

/-- A character after an opening angle bracket and an exclamation mark. Character data sections
exist only in foreign content. -/
def readMarkup (t : Tokenizer) (foreign : Bool) (c : Char) : Tokenizer :=
  let t := { t with ahead := c :: t.ahead }
  let ahead := t.ahead.reverse
  let reaches (keyword : String) := ahead.length == keyword.length
  if begins ahead "--" false then
    if reaches "--" then { t with ahead := [], comment := "", state := .commentStart } else t
  else if begins ahead "doctype" true then
    if reaches "doctype" then { t with ahead := [], state := .doctype } else t
  else if foreign && begins ahead "[CDATA[" false then
    if reaches "[CDATA[" then { t with ahead := [], held := [], state := .cdata } else t
  else t.takeAhead

/-- A character after the name of a declaration, where a keyword may announce an identifier. -/
def readKeyword (t : Tokenizer) (c : Char) : Tokenizer :=
  if t.afterReturn && c == '\n' then { t with afterReturn := false }
  else
    let t := { t with ahead := c :: t.ahead, afterReturn := false }
    let ahead := t.ahead.reverse
    let reaches (keyword : String) := ahead.length == keyword.length
    if begins ahead "public" true then
      if reaches "public" then { t with ahead := [], state := .afterKeyword .publicId } else t
    else if begins ahead "system" true then
      if reaches "system" then { t with ahead := [], state := .afterKeyword .systemId } else t
    else t.takeAhead

/-! ## The whole source -/

/-- A character between the equals sign of an attribute and its value. -/
def readBeforeAttrValue (t : Tokenizer) (c : Char) : Tokenizer :=
  if isSpace c then t
  else if c == '"' then t.goto (.attrValue .double)
  else if c == '\'' then t.goto (.attrValue .single)
  else if c == '>' then t.emitTag false
  else (t.goto (.attrValue .bare)).take c

/-- Read one character of the source; `foreign` says whether the tree builder stands in foreign
content. -/
def step (t : Tokenizer) (foreign : Bool) (c : Char) : Tokenizer :=
  match t.reference, t.state with
  | some r, _ => t.readReference r c
  | none, .markup => t.readMarkup foreign c
  | none, .afterDoctypeName => t.readKeyword c
  | none, .beforeAttrValue => t.readBeforeAttrValue c
  | none, _ => t.take c

/-- End a piece of the source. A run never goes on in the next piece. -/
def pause (t : Tokenizer) : Tokenizer :=
  let waits := t.state == .afterDoctypeName && t.ahead.isEmpty
  { t.flush with alone := false, afterReturn := t.afterReturn && !waits }

/-- End the source in the middle of a token. Tags are dropped; comments and declarations count as
far as they go; characters that may have started a tag are text. -/
def close (t : Tokenizer) : Tokenizer :=
  match t.state with
  | .tagOpen => t.emitChar '<'
  | .endTagOpen => t.emitEach ['<', '/']
  | .rawLessThan (.escaped .double) => t
  | .rawLessThan _ => t.emitChar '<'
  | .rawEndTagOpen _ => t.emitEach ['<', '/']
  | .rawEndTagName _ => (t.emitEach ['<', '/']).emitHeld
  | .markup => { t with comment := "" }.emitComment
  | .bogusComment | .commentStart | .commentStartDash | .comment | .commentEndDash | .commentEnd
  | .commentEndBang => t.emitComment
  | .doctype | .beforeDoctypeName =>
    { t with declaration := {} }.declareMalformed.emitDeclaration
  | .doctypeName | .afterDoctypeName | .afterKeyword _ | .beforeIdentifier _ | .identifier ..
  | .afterIdentifier _ | .betweenIdentifiers => t.declareMalformed.emitDeclaration
  | .bogusDoctype => t.emitDeclaration
  | .cdata => t.emitHeld
  | .cdataBracket => (t.hold ']').emitHeld
  | .cdataEnd => ((t.hold ']').hold ']').emitHeld
  | _ => t

/-- End the source. -/
def finish (t : Tokenizer) : Tokenizer :=
  let t := match t.reference with
    | some r => t.endReference (r.close t.inAttrValue)
    | none => t
  (t.takeAhead.flush.close).emit .eof

end HtmlWalk.Html.Tokenizer
