import HtmlWalk.Html.Stage
import HtmlWalk.Html.Tokenizer
import HtmlWalk.Options

/-!
# Parsing sessions

A session reads a source piece by piece: the tokenizer cuts it into tokens, and each token becomes
edits before the next character is read, because a tag can change how the source goes on. A byte
order mark at the start of a piece is no part of the source, and neither is one right after a
script.
-/

namespace HtmlWalk.Html

/-- The source that has been read so far. -/
structure Session where
  /-- The tokenizer. -/
  tokenizer : Tokenizer
  /-- How far its tokens have been read. -/
  stage : Stage
  /-- Whether a byte order mark would now be dropped. -/
  fresh : Bool := false

namespace Session

/-- The byte order mark. -/
def byteOrderMark : Char := '\ufeff'

/-- A session for a document. -/
def document (options : ParseOptions) : Session where
  tokenizer := { exact := options.exactErrors }
  stage := .document options.scripting

/-- A session for a fragment. -/
def fragment (options : ParseOptions) : Session where
  tokenizer := { exact := options.exactErrors }
  stage := .fragment options.scripting

/-- Change how the source goes on. -/
def heed (s : Session) : Option Signal → Session
  | none => s
  | some (.raw kind) => { s with tokenizer := s.tokenizer.goto (.raw kind) }
  | some .plaintext => { s with tokenizer := s.tokenizer.goto .plaintext }
  | some .scriptEnd => { s with tokenizer := s.tokenizer.pause, fresh := true }

/-- Deal with a token. -/
def token : Session → Nat → Token → Session
  | ⟨tokenizer, stage, fresh⟩, line, token =>
    let (stage, signal) := stage.token line token
    heed ⟨tokenizer, stage, fresh⟩ signal

/-- Deal with the tokens that the tokenizer has handed over. -/
def deliver (s : Session) : Session :=
  match s.tokenizer.out with
  | [] => s
  | out =>
    let s := { s with tokenizer := { s.tokenizer with out := [] } }
    out.foldr (fun (line, token) s => s.token line token) s

/-- Read a character. -/
def read (s : Session) (c : Char) : Session :=
  if s.fresh && c == byteOrderMark then { s with fresh := false }
  else
    let tokenizer := s.tokenizer.step s.stage.inForeign c
    { s with tokenizer, fresh := false }.deliver

/-- Read a piece of the source. -/
def feed (s : Session) (piece : List Char) : Session :=
  if piece.isEmpty then s
  else
    let s := piece.foldl read { s with fresh := true }
    { s with tokenizer := s.tokenizer.pause }.deliver

/-- The edits that the whole source amounts to. -/
def finish (s : Session) : List Edit :=
  { s with tokenizer := s.tokenizer.finish }.deliver.stage.edits.toList

end Session

end HtmlWalk.Html
