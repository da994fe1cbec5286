/-!
# Parse options
-/

namespace HtmlWalk

/-- How a source is parsed. -/
structure ParseOptions where
  /-- Whether nodes carry the lines on which they start. -/
  sourceLines : Bool := false
  /-- Whether the source is read as if scripts could run: the alternatives for readers without
  scripts are then text. -/
  scripting : Bool := true
  /-- Whether text is read one character at a time, so that each mistake can be reported where it
  is. -/
  exactErrors : Bool := false
deriving DecidableEq

end HtmlWalk
