import HtmlWalk.Html.Parse
import HtmlWalk.Walk

/-!
# Parsing and walking in one step
-/

namespace HtmlWalk

/-- The version of this library. -/
def version : String := "0.1.0"

/-- Parse a document and walk it with a visitor. -/
def parseAndTraverse {σ ε : Type} (source : String) (options : ParseOptions) (v : Visitor σ ε)
    (depth : Nat) : Run σ (Failure ε) Node :=
  v.traverse depth (parse source options)

end HtmlWalk
