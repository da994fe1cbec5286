import HtmlWalk.Attribute

/-!
# Tokens of HTML source

The tokenizer cuts the source into tokens, and the tree builder puts them together. A token stands
next to the number of the line that the tokenizer had reached when it handed the token over.
-/

namespace HtmlWalk.Html

/-- A start or end tag. -/
structure Tag where
  /-- The name, in lower case. -/
  name : String
  /-- The attributes; of two with one name only the first is kept. -/
  attrs : List Attribute := []
  /-- Whether the tag ends in a slash. -/
  selfClosing : Bool := false
deriving DecidableEq

/-- A doctype declaration as written: a part that is missing is told apart from an empty one. -/
structure Declaration where
  /-- The name, in lower case. -/
  name : Option String := none
  /-- The public identifier. -/
  publicId : Option String := none
  /-- The system identifier. -/
  systemId : Option String := none
  /-- Whether the declaration is malformed in a way that calls for quirks mode. -/
  malformed : Bool := false
deriving DecidableEq

/-- What the tokenizer hands to the tree builder. A `flaw` is a mistake in the source between two
runs of characters; it carries nothing, but it stands between the token before and the one after. -/
inductive Token
  | declaration (d : Declaration)
  | startTag (tag : Tag)
  | endTag (tag : Tag)
  | comment (data : String)
  | chars (run : List Char)
  | null
  | flaw
  | eof
deriving DecidableEq

/-! ## Characters -/

/-- The white space of HTML source. -/
def isSpace (c : Char) : Bool :=
  c == ' ' || c == '\n' || c == '\t' || c == '\x0c' || c == '\r'

/-- An ASCII letter or digit. -/
def isWordChar (c : Char) : Bool := c.isAlpha || c.isDigit

/-- The character that stands for one that cannot be shown. -/
def replacement : Char := '\ufffd'

/-- The number of line breaks in a run of characters. -/
def lineBreaks (run : List Char) : Nat := run.count '\n'

end HtmlWalk.Html
