import HtmlWalk.Html.Builder.Foreign

/-!
# The tree builder

`Builder.piece` deals with a piece of a token. A rule may change the insertion mode and leave the
piece to the rules of that mode. It does so fewer than nine times before an element is closed with
which the insertion mode is decided anew, and so the piece is dealt with in the end.

Where an insertion mode treats white space apart, characters are cut into runs of white space and
runs of others. The mode is asked again before each run, because the run before may have changed it.
-/

namespace HtmlWalk.Html

/-- The runs of white space and of other characters that make up a run, in order. -/
def splitRuns : List Char → List Piece
  | [] => []
  | c :: rest =>
    match isSpace c, splitRuns rest with
    | true, .space run :: pieces => .space (c :: run) :: pieces
    | true, pieces => .space [c] :: pieces
    | false, .chars run :: pieces => .chars (c :: run) :: pieces
    | false, pieces => .chars [c] :: pieces

/-- The characters of a piece. -/
def Piece.run : Piece → List Char
  | .space run | .chars run => run
  | _ => []

namespace Builder

/-- Whether the insertion mode treats white space apart. -/
def splitsText (b : Builder) : Bool :=
  match b.mode with
  | .beforeHead | .inHead | .inHeadNoscript | .afterHead | .inColumnGroup | .afterBody
  | .inFrameset | .afterFrameset | .afterAfterBody | .afterAfterFrameset =>
    !b.isForeign (.chars [])
  | _ => false

/-- Deal with a piece by the rules that hold for it now. -/
def once (b : Builder) (p : Piece) : Outcome :=
  if b.isForeign p then b.inForeignContent p else b.byMode p

/-- Deal with a piece, going on to another insertion mode so many times at most. -/
def pieceWithin (p : Piece) : Nat → Builder → Builder × Option Signal
  | 0, b => (b, none)
  | n + 1, b =>
    match b.once p with
    | .done b => (b, none)
    | .signal s b => (b, some s)
    | .again b => pieceWithin p n b

/-- Deal with a piece. -/
def piece (b : Builder) (p : Piece) : Builder × Option Signal :=
  pieceWithin p (9 * (b.stack.length + 1)) b

end Builder

end HtmlWalk.Html
