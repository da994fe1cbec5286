import HtmlWalk.Html.Tokenizer.State

/-!
# Text

How a character is read in text: in ordinary text, in text that only the matching end tag ends, in
scripts with comments in them, and in character data sections.
-/

namespace HtmlWalk.Html

/-- Whether a character can be part of a run that more characters follow. Markup and carriage
returns end every run, line feeds end every run but that of ordinary text. -/
def State.joins (s : State) (c : Char) : Bool :=
  if c == '\r' || c == '\x00' then false
  else match s with
    | data => c != '<' && c != '&'
    | raw .rcdata => c != '<' && c != '&' && c != '\n'
    | raw (.escaped _) => c != '<' && c != '-' && c != '\n'
    | raw _ => c != '<' && c != '\n'
    | _ => c != '\n'

/-- The lower-case form of an ASCII letter. -/
def lowerLetter? (c : Char) : Option Char := if c.isAlpha then some c.toLower else none

namespace Tokenizer

/-- A character of a run, or a run of its own. -/
def textChar (t : Tokenizer) (c : Char) (alone : Bool) : Tokenizer :=
  if alone then t.emitChar c else { t with run := c :: t.run }

/-- A character of ordinary text. -/
def readData (t : Tokenizer) (c : Char) (alone : Bool) : Tokenizer :=
  if c == '\x00' then t.emit .null
  else if c == '&' then { t with reference := some .start }
  else if c == '<' then t.goto .tagOpen
  else t.textChar c (alone || (c == '\n' && t.run.isEmpty))

/-- A character of text that only the matching end tag ends. -/
def readRaw (t : Tokenizer) (kind : Raw) (c : Char) (alone : Bool) : Tokenizer :=
  if c == '\x00' then t.emitChar replacement
  else if c == '&' && kind == .rcdata then { t with reference := some .start }
  else if c == '<' then
    (if kind == .escaped .double then t.emitChar '<' else t).goto (.rawLessThan kind)
  else match kind with
    | .escaped e =>
      if c == '-' then (t.emitChar '-').goto (.escapedDash e) else t.textChar c (alone || c == '\n')
    | _ => t.textChar c (alone || c == '\n')

/-- A character of text that nothing ends. -/
def readPlaintext (t : Tokenizer) (c : Char) (alone : Bool) : Tokenizer :=
  if c == '\x00' then t.emitChar replacement else t.textChar c (alone || c == '\n')

/-- The character after an opening angle bracket in raw text. -/
def readRawLessThan (t : Tokenizer) (kind : Raw) (c : Char) : Tokenizer :=
  match kind with
  | .escaped .double =>
    if c == '/' then (t.holdNothing.emitChar '/').goto .doubleEscapeEnd
    else (t.goto (.raw kind)).readRaw kind c true
  | .escaped .single =>
    if c == '/' then t.holdNothing.goto (.rawEndTagOpen kind)
    else match lowerLetter? c with
      | some l => (((t.holdNothing.hold l).emitChar '<').emitChar c).goto (.escapeStart .double)
      | none => ((t.emitChar '<').goto (.raw kind)).readRaw kind c true
  | _ =>
    if c == '/' then t.holdNothing.goto (.rawEndTagOpen kind)
    else if c == '!' && kind == .script then
      ((t.emitChar '<').emitChar '!').goto (.escapeStart .single)
    else ((t.emitChar '<').goto (.raw kind)).readRaw kind c true

/-- The character after an opening angle bracket and a slash in raw text. -/
def readRawEndTagOpen (t : Tokenizer) (kind : Raw) (c : Char) : Tokenizer :=
  match lowerLetter? c with
  | some l => ((t.startTag true l).hold c).goto (.rawEndTagName kind)
  | none => (((t.emitChar '<').emitChar '/').goto (.raw kind)).readRaw kind c true

/-- A character of the name of an end tag in raw text: the tag counts only if its name is that of
the last start tag. -/
def readRawEndTagName (t : Tokenizer) (kind : Raw) (c : Char) : Tokenizer :=
  let matching := t.draft.name == t.lastStart
  if matching && isSpace c then t.holdNothing.goto .beforeAttrName
  else if matching && c == '/' then t.holdNothing.goto .selfClosing
  else if matching && c == '>' then t.holdNothing.emitTag false
  else match lowerLetter? c with
    | some l => { t.hold c with draft.name := t.draft.name.push l }
    | none =>
      ((((t.emitChar '<').emitChar '/').emitHeld).goto (.raw kind)).readRaw kind c true

/-- The end of the word that may start or end a script in a comment: what the text is afterwards,
by whether the word was the right one. -/
def readEscapeWord (t : Tokenizer) (c : Char) (matched unmatched otherwise : Escape) : Tokenizer :=
  if isSpace c || c == '/' || c == '>' then
    let e := if t.held.reverse == "script".toList then matched else unmatched
    (t.emitChar c).goto (.raw (.escaped e))
  else match lowerLetter? c with
    | some l => (t.hold l).emitChar c
    | none => (t.goto (.raw (.escaped otherwise))).readRaw (.escaped otherwise) c true

/-- A character at the possible start of a comment in a script, or of a script in that comment. -/
def readEscapeStart (t : Tokenizer) (e : Escape) (c : Char) : Tokenizer :=
  match e with
  | .double => t.readEscapeWord c .double .single .single
  | .single =>
    if c == '-' then (t.emitChar '-').goto .escapeStartDash
    else (t.goto (.raw .script)).readRaw .script c true

/-- The character after one dash at the possible start of a comment in a script. -/
def readEscapeStartDash (t : Tokenizer) (c : Char) : Tokenizer :=
  if c == '-' then (t.emitChar '-').goto (.escapedDashDash .single)
  else (t.goto (.raw .script)).readRaw .script c true

/-- The character after one dash, or after `two`, in a commented script. -/
def readEscapedDash (t : Tokenizer) (e : Escape) (two : Bool) (c : Char) : Tokenizer :=
  if c == '-' then (t.emitChar '-').goto (.escapedDashDash e)
  else if c == '<' then
    (if e == .double then t.emitChar '<' else t).goto (.rawLessThan (.escaped e))
  else if two && c == '>' then (t.emitChar '>').goto (.raw .script)
  else (t.emitChar (if c == '\x00' then replacement else c)).goto (.raw (.escaped e))

/-- A character of a character data section. -/
def readCdata (t : Tokenizer) (c : Char) : Tokenizer :=
  if c == ']' then t.goto .cdataBracket
  else if c == '\x00' then t.emitHeld.emit .null
  else t.hold c

/-- The character after one closing bracket in a character data section. -/
def readCdataBracket (t : Tokenizer) (c : Char) : Tokenizer :=
  if c == ']' then t.goto .cdataEnd else ((t.hold ']').goto .cdata).readCdata c

/-- The character after two closing brackets in a character data section. -/
def readCdataEnd (t : Tokenizer) (c : Char) : Tokenizer :=
  if c == ']' then t.hold ']'
  else if c == '>' then t.emitHeld.goto .data
  else (((t.hold ']').hold ']').goto .cdata).readCdata c

end Tokenizer

end HtmlWalk.Html
