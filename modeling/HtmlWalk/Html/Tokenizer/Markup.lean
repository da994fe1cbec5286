import HtmlWalk.Html.Tokenizer.Text

/-!
# Markup

How a character is read in a tag, in a comment and in a doctype declaration. A comment may be
written in many wrong ways; whatever follows a wrong opening up to the next closing angle bracket
is a comment too.
-/

namespace HtmlWalk.Html

/-- The character itself, or the replacement character for a null. -/
def orReplacement (c : Char) : Char := if c == '\x00' then replacement else c

namespace Tokenizer

/-! ## Comments -/

/-- A character of a comment that was opened in a wrong way. -/
def readBogusComment (t : Tokenizer) (c : Char) : Tokenizer :=
  if c == '>' then t.emitComment else t.say (String.singleton (orReplacement c))

/-- Start a comment that was opened in a wrong way, with its first character. -/
def startBogusComment (t : Tokenizer) (c : Char) : Tokenizer :=
  { t with state := .bogusComment, comment := "" }.readBogusComment c

/-- A character that goes on with a comment, after dashes that were not yet known to be in it. -/
def readOnComment (t : Tokenizer) (dashes : String) (c : Char) : Tokenizer :=
  (t.say (dashes.push (orReplacement c))).goto .comment

/-- A character of a comment. -/
def readComment (t : Tokenizer) (c : Char) : Tokenizer :=
  match t.state with
  | .commentStart =>
    if c == '-' then t.goto .commentStartDash
    else if c == '>' then t.emitComment
    else t.readOnComment "" c
  | .commentStartDash =>
    if c == '-' then t.goto .commentEnd
    else if c == '>' then t.emitComment
    else t.readOnComment "-" c
  | .commentEndDash =>
    if c == '-' then t.goto .commentEnd else t.readOnComment "-" c
  | .commentEnd =>
    if c == '>' then t.emitComment
    else if c == '!' then t.goto .commentEndBang
    else if c == '-' then t.say "-"
    else t.readOnComment "--" c
  | .commentEndBang =>
    if c == '-' then (t.say "--!").goto .commentEndDash
    else if c == '>' then t.emitComment
    else t.readOnComment "--!" c
  | _ => if c == '-' then t.goto .commentEndDash else t.readOnComment "" c

/-! ## Tags -/

/-- The character after an opening angle bracket. -/
def readTagOpen (t : Tokenizer) (c : Char) : Tokenizer :=
  if c == '!' then t.goto .markup
  else if c == '/' then t.goto .endTagOpen
  else if c == '?' then t.startBogusComment c
  else match lowerLetter? c with
    | some l => (t.startTag false l).goto .tagName
    | none => ((t.emitChar '<').goto .data).readData c true

/-- The character after an opening angle bracket and a slash. -/
def readEndTagOpen (t : Tokenizer) (c : Char) : Tokenizer :=
  if c == '>' then (t.emit .flaw).goto .data
  else match lowerLetter? c with
    | some l => (t.startTag true l).goto .tagName
    | none => t.startBogusComment c

/-- Start an attribute with the first character of its name. -/
def startAttr (t : Tokenizer) (c : Char) : Tokenizer :=
  { t with state := .attrName, draft := t.draft.startAttr (orReplacement c).toLower }

/-- A character between two attributes. -/
def readBeforeAttrName (t : Tokenizer) (c : Char) : Tokenizer :=
  if isSpace c then t
  else if c == '/' then t.goto .selfClosing
  else if c == '>' then t.emitTag false
  else t.startAttr c

/-- A character of the name of a tag. -/
def readTagName (t : Tokenizer) (c : Char) : Tokenizer :=
  if isSpace c then t.goto .beforeAttrName
  else if c == '/' then t.goto .selfClosing
  else if c == '>' then t.emitTag false
  else { t with draft.name := t.draft.name.push (orReplacement c).toLower }

/-- A character of the name of an attribute. -/
def readAttrName (t : Tokenizer) (c : Char) : Tokenizer :=
  if isSpace c then t.goto .afterAttrName
  else if c == '/' then t.goto .selfClosing
  else if c == '=' then t.goto .beforeAttrValue
  else if c == '>' then t.emitTag false
  else { t with draft.attrName := t.draft.attrName.push (orReplacement c).toLower }

/-- A character between the name of an attribute and its value, if it has one. -/
def readAfterAttrName (t : Tokenizer) (c : Char) : Tokenizer :=
  if isSpace c then t
  else if c == '/' then t.goto .selfClosing
  else if c == '=' then t.goto .beforeAttrValue
  else if c == '>' then t.emitTag false
  else t.startAttr c

/-- A character of the value of an attribute. -/
def readAttrValue (t : Tokenizer) (quote : Quote) (c : Char) : Tokenizer :=
  if c == '&' then { t with reference := some .start }
  else match quote.mark? with
    | some mark =>
      if c == mark then t.goto .afterAttrValue else t.pushValue [orReplacement c]
    | none =>
      if isSpace c then t.goto .beforeAttrName
      else if c == '>' then t.emitTag false
      else t.pushValue [orReplacement c]

/-- The character after the closing quote of an attribute value. -/
def readAfterAttrValue (t : Tokenizer) (c : Char) : Tokenizer :=
  (t.goto .beforeAttrName).readBeforeAttrName c

/-- The character after a slash in a tag. -/
def readSelfClosing (t : Tokenizer) (c : Char) : Tokenizer :=
  if c == '>' then t.emitTag true else (t.goto .beforeAttrName).readBeforeAttrName c

/-! ## Doctype declarations -/

/-- Add a character to the name of the declaration. -/
def pushDoctypeName (t : Tokenizer) (c : Char) : Tokenizer :=
  t.declare fun d => { d with name := some ((d.name.getD "").push (orReplacement c).toLower) }

/-- A character before the name of the declaration. -/
def readBeforeDoctypeName (t : Tokenizer) (c : Char) : Tokenizer :=
  if isSpace c then t
  else
    let t := { t with declaration := {} }
    if c == '>' then t.declareMalformed.emitDeclaration
    else (t.pushDoctypeName c).goto .doctypeName

/-- A character of the name of the declaration. -/
def readDoctypeName (t : Tokenizer) (c : Char) : Tokenizer :=
  if isSpace c then t.goto .afterDoctypeName
  else if c == '>' then t.emitDeclaration
  else t.pushDoctypeName c

/-- A declaration that goes on in a wrong way. -/
def spoilDeclaration (t : Tokenizer) : Tokenizer := t.declareMalformed.goto .bogusDoctype

/-- A character after the name of the declaration that starts no keyword. -/
def readAfterDoctypeName (t : Tokenizer) (c : Char) : Tokenizer :=
  if isSpace c then t
  else if c == '>' then t.emitDeclaration
  else t.spoilDeclaration

/-- Start an identifier with the quote that opens it. -/
def startIdentifier (t : Tokenizer) (id : Identifier) (mark : Char) : Tokenizer :=
  let t := match id with
    | .publicId => t.declare ({ · with publicId := some "" })
    | .systemId => t.declare ({ · with systemId := some "" })
  t.goto (.identifier id mark)

/-- Add a character to an identifier. -/
def pushIdentifier (t : Tokenizer) (id : Identifier) (c : Char) : Tokenizer :=
  let add (s : Option String) := some ((s.getD "").push (orReplacement c))
  match id with
  | .publicId => t.declare fun d => { d with publicId := add d.publicId }
  | .systemId => t.declare fun d => { d with systemId := add d.systemId }

/-- A character between a keyword and its identifier. -/
def readBeforeIdentifier (t : Tokenizer) (id : Identifier) (c : Char) : Tokenizer :=
  if isSpace c then t.goto (.beforeIdentifier id)
  else if c == '"' || c == '\'' then t.startIdentifier id c
  else if c == '>' then t.declareMalformed.emitDeclaration
  else t.spoilDeclaration

/-- A character of an identifier. -/
def readIdentifier (t : Tokenizer) (id : Identifier) (mark c : Char) : Tokenizer :=
  if c == mark then t.goto (.afterIdentifier id)
  else if c == '>' then t.declareMalformed.emitDeclaration
  else t.pushIdentifier id c

/-- A character after the public identifier. -/
def readAfterPublicId (t : Tokenizer) (c : Char) : Tokenizer :=
  if isSpace c then t.goto .betweenIdentifiers
  else if c == '>' then t.emitDeclaration
  else if c == '"' || c == '\'' then t.startIdentifier .systemId c
  else t.spoilDeclaration

/-- A character after the system identifier. -/
def readAfterSystemId (t : Tokenizer) (c : Char) : Tokenizer :=
  if isSpace c then t
  else if c == '>' then t.emitDeclaration
  else t.goto .bogusDoctype

/-- A character of a declaration that went on in a wrong way. -/
def readBogusDoctype (t : Tokenizer) (c : Char) : Tokenizer :=
  if c == '>' then t.emitDeclaration else t

end Tokenizer

end HtmlWalk.Html
