import HtmlWalk.Html.Parse
import HtmlWalk.Text.Utf8

/-!
# Reading a document

A document can be read from a source that delivers bytes bit by bit. A read that was interrupted is
tried again; any other failure ends the reading, whatever was read before. The first read that
delivers nothing is the end of the document.
-/

namespace HtmlWalk

/-! ## Sources -/

/-- Why a read fails. -/
inductive ReadFailure
  | notFound
  | permissionDenied
  | unexpectedEnd
  | invalidData
  | other
  | interrupted
deriving DecidableEq

/-- The text about a failure of which nothing else is said. -/
def ReadFailure.text : ReadFailure → String
  | notFound => "entity not found"
  | permissionDenied => "permission denied"
  | unexpectedEnd => "unexpected end of file"
  | invalidData => "invalid data"
  | other => "other error"
  | interrupted => "operation interrupted"

/-- A failure of a read, with what is said about it. -/
structure ReadError where
  /-- The sort of failure. -/
  failure : ReadFailure
  /-- A text about it. -/
  text : Option String := none
deriving DecidableEq

/-- The text of the report about a failed parse. -/
def ReadError.message (e : ReadError) : String :=
  "Failed to read HTML input: " ++ e.text.getD e.failure.text

/-- What a source has to deliver next. -/
inductive Delivery
  | bytes (bytes : List UInt8)
  | error (e : ReadError)

/-- The number of bytes that one read takes at most. -/
def readSize : Nat := 4096

/-! ## Reading -/

namespace Html

/-- A session with the beginning of a character that is not yet complete. -/
structure ByteSession where
  /-- The session. -/
  session : Session
  /-- The beginning of a character. -/
  beginning : Option Text.Utf8.Beginning := none

namespace ByteSession

/-- Feed the bytes of one read. -/
def feed (s : ByteSession) (bytes : List UInt8) : ByteSession :=
  let (pieces, beginning) := Text.Utf8.feed s.beginning bytes
  { session := pieces.foldl Session.feed s.session, beginning }

/-- Feed bytes, as many at a time as one read takes, in so many reads at most. -/
def feedReads (s : ByteSession) : Nat → List UInt8 → ByteSession
  | _, [] => s
  | 0, _ => s
  | n + 1, bytes => (s.feed (bytes.take readSize)).feedReads n (bytes.drop readSize)

/-- Feed what a source delivers. -/
def feedAll (s : ByteSession) : List Delivery → Except ReadError ByteSession
  | [] => .ok s
  | .bytes [] :: _ => .ok s
  | .bytes bytes :: rest => (s.feedReads bytes.length bytes).feedAll rest
  | .error e :: rest => if e.failure = .interrupted then s.feedAll rest else .error e

/-- The session after the last byte. -/
def finish (s : ByteSession) : Session :=
  (Text.Utf8.finish s.beginning).foldl Session.feed s.session

end ByteSession

end Html

open Html

/-- Parse a document that a source delivers. -/
def parseReader (source : List Delivery) (options : ParseOptions) : Except ReadError Node :=
  (ByteSession.feedAll { session := .document options } source).map fun s =>
    documentOf options s.finish

end HtmlWalk
