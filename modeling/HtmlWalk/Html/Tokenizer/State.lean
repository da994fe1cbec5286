import HtmlWalk.Html.Reference

/-!
# The tokenizer's state

The tokenizer reads the source one character at a time. Between two characters it remembers where
in a tag, comment, declaration or text it is (`State`), the parts of the token under construction,
and the line that it has reached.

Text is handed over in *runs*. How long a run is matters, because a run is placed on the line that
the tokenizer has reached at its end. Ordinary text goes on to the next markup character, line
feeds included, unless it starts with a line feed; every other text ends before a line feed. A
carriage return always makes a run of its own, and so does the character after it.
-/

namespace HtmlWalk.Html

/-! ## Where the tokenizer is -/

/-- How deep a script is inside a comment: in the comment, or in a script element in the comment. -/
inductive Escape
  | single
  | double
deriving DecidableEq

/-- The kinds of text that only the matching end tag ends. -/
inductive Raw
  /-- Text with character references, as in a title. -/
  | rcdata
  /-- Text without them, as in a style sheet. -/
  | rawtext
  /-- A script. -/
  | script
  /-- A script inside a comment. -/
  | escaped (e : Escape)
deriving DecidableEq

/-- How an attribute value is delimited. -/
inductive Quote
  | double
  | single
  | bare
deriving DecidableEq

/-- The character that closes a quoted value. -/
def Quote.mark? : Quote → Option Char
  | double => some '"'
  | single => some '\''
  | bare => none

/-- The two identifiers of a doctype declaration. -/
inductive Identifier
  | publicId
  | systemId
deriving DecidableEq

/-- The place in the source, as far as it decides how the next character is read. -/
inductive State
  /-- Ordinary text. -/
  | data
  /-- Text up to the matching end tag. -/
  | raw (kind : Raw)
  /-- Text up to the end of the source. -/
  | plaintext
  /-- After an opening angle bracket. -/
  | tagOpen
  /-- After an opening angle bracket and a slash. -/
  | endTagOpen
  | tagName
  /-- After an opening angle bracket in raw text. -/
  | rawLessThan (kind : Raw)
  /-- After an opening angle bracket and a slash in raw text. -/
  | rawEndTagOpen (kind : Raw)
  | rawEndTagName (kind : Raw)
  /-- In what may become a comment in a script, or a script in that comment. -/
  | escapeStart (e : Escape)
  /-- The same, after one dash. -/
  | escapeStartDash
  /-- After one dash in a commented script. -/
  | escapedDash (e : Escape)
  /-- After two dashes in a commented script. -/
  | escapedDashDash (e : Escape)
  /-- In what may end a script in the comment. -/
  | doubleEscapeEnd
  | beforeAttrName
  | attrName
  | afterAttrName
  | beforeAttrValue
  | attrValue (quote : Quote)
  /-- After the closing quote of an attribute value. -/
  | afterAttrValue
  /-- After a slash in a tag. -/
  | selfClosing
  /-- After an opening angle bracket and an exclamation mark. -/
  | markup
  | bogusComment
  | commentStart
  | commentStartDash
  | comment
  | commentEndDash
  | commentEnd
  | commentEndBang
  | doctype
  | beforeDoctypeName
  | doctypeName
  | afterDoctypeName
  /-- After the word that announces an identifier. -/
  | afterKeyword (id : Identifier)
  | beforeIdentifier (id : Identifier)
  | identifier (id : Identifier) (mark : Char)
  | afterIdentifier (id : Identifier)
  | betweenIdentifiers
  | bogusDoctype
  /-- In a character data section. -/
  | cdata
  /-- After one closing bracket in a character data section. -/
  | cdataBracket
  /-- After two closing brackets in a character data section. -/
  | cdataEnd
deriving DecidableEq

/-- A tag under construction. -/
structure Draft where
  /-- Whether it is an end tag. -/
  closing : Bool := false
  /-- The name read so far. -/
  name : String := ""
  /-- The attributes read so far, the last one first. -/
  attrs : List Attribute := []
  /-- The name of the attribute under construction; empty if there is none. -/
  attrName : String := ""
  /-- The value of the attribute under construction. -/
  attrValue : String := ""

/-- The draft with the attribute under construction added to the others, unless its name is
taken. -/
def Draft.endAttr (d : Draft) : Draft :=
  let known := d.attrName.isEmpty || d.attrs.any (·.name == d.attrName)
  { d with
    attrs := if known then d.attrs else ⟨d.attrName, d.attrValue⟩ :: d.attrs
    attrName := ""
    attrValue := "" }

/-- The draft with a new attribute, whose name starts with this character. -/
def Draft.startAttr (d : Draft) (c : Char) : Draft :=
  { d.endAttr with attrName := String.singleton c }

/-- A tokenizer between two characters. -/
structure Tokenizer where
  /-- Whether every character is handed over as a run of its own. -/
  exact : Bool := false
  /-- The place in the source. -/
  state : State := .data
  /-- The number of the line that has been reached, from one. -/
  line : Nat := 1
  /-- Whether the last character was a carriage return, which takes a line feed with it. -/
  afterReturn : Bool := false
  /-- Whether the next character makes a run of its own. -/
  alone : Bool := false
  /-- The run under construction, the last character first. -/
  run : List Char := []
  /-- The tag under construction. -/
  draft : Draft := {}
  /-- The name of the last start tag: raw text ends at an end tag of that name. -/
  lastStart : String := ""
  /-- Characters held back until their meaning is known, the last one first. -/
  held : List Char := []
  /-- The comment under construction. -/
  comment : String := ""
  /-- The doctype declaration under construction. -/
  declaration : Declaration := {}
  /-- The character reference under construction. -/
  reference : Option Reference := none
  /-- Characters read ahead to recognise a keyword, the last one first. -/
  ahead : List Char := []
  /-- The tokens handed over since they were last taken, the last one first, with their lines. -/
  out : List (Nat × Token) := []

namespace Tokenizer

/-! ## Handing over tokens -/

/-- Hand over a token. -/
def emit (t : Tokenizer) (token : Token) : Tokenizer := { t with out := (t.line, token) :: t.out }

/-- Hand over one character as a run of its own. -/
def emitChar (t : Tokenizer) (c : Char) : Tokenizer := t.emit (.chars [c])

/-- Hand over some characters, each as a run of its own. -/
def emitEach (t : Tokenizer) (cs : List Char) : Tokenizer := cs.foldl emitChar t

/-- Hand over the run under construction. -/
def flush (t : Tokenizer) : Tokenizer :=
  if t.run.isEmpty then t else { t.emit (.chars t.run.reverse) with run := [] }

/-- Hand over the characters held back, as one run. -/
def emitHeld (t : Tokenizer) : Tokenizer :=
  { t.emit (.chars t.held.reverse) with held := [] }

/-- Go on in another state. -/
def goto (t : Tokenizer) (s : State) : Tokenizer := { t with state := s }

/-- Hold a character back. -/
def hold (t : Tokenizer) (c : Char) : Tokenizer := { t with held := c :: t.held }

/-- Hold nothing back any longer. -/
def holdNothing (t : Tokenizer) : Tokenizer := { t with held := [] }

/-- Hand over the tag under construction. -/
def emitTag (t : Tokenizer) (selfClosing : Bool) : Tokenizer :=
  let d := t.draft.endAttr
  let tag : Tag := ⟨d.name, d.attrs.reverse, selfClosing⟩
  let t := { t with state := .data, draft := {} }
  if d.closing then t.emit (.endTag tag) else { t.emit (.startTag tag) with lastStart := d.name }

/-- Hand over the comment under construction. -/
def emitComment (t : Tokenizer) : Tokenizer :=
  { t.emit (.comment t.comment) with state := .data, comment := "" }

/-- Hand over the doctype declaration under construction. -/
def emitDeclaration (t : Tokenizer) : Tokenizer :=
  { t.emit (.declaration t.declaration) with state := .data, declaration := {} }

/-! ## Building tokens -/

/-- Start a tag with the first character of its name. -/
def startTag (t : Tokenizer) (closing : Bool) (c : Char) : Tokenizer :=
  { t with draft := { closing, name := String.singleton c } }

/-- Add characters to the comment. -/
def say (t : Tokenizer) (s : String) : Tokenizer := { t with comment := t.comment ++ s }

/-- Change the doctype declaration. -/
def declare (t : Tokenizer) (f : Declaration → Declaration) : Tokenizer :=
  { t with declaration := f t.declaration }

/-- Mark the doctype declaration as malformed. -/
def declareMalformed (t : Tokenizer) : Tokenizer := t.declare ({ · with malformed := true })

/-- Add characters to the value of the attribute under construction. -/
def pushValue (t : Tokenizer) (cs : List Char) : Tokenizer :=
  { t with draft.attrValue := cs.foldl String.push t.draft.attrValue }

end Tokenizer

end HtmlWalk.Html
