import HtmlWalk.Node

/-!
# Element names

The name of an element in a parsed document is a tag in one of three namespaces. The sets of names
on which the rules of tree construction turn are collected here.
-/

namespace HtmlWalk.Html

/-- The namespaces of parsed elements. -/
inductive Space
  | html
  | mathml
  | svg
deriving DecidableEq

/-- The identifier of a namespace. -/
def Space.uri : Space → String
  | html => htmlNamespace
  | mathml => "http://www.w3.org/1998/Math/MathML"
  | svg => "http://www.w3.org/2000/svg"

/-- A tag in a namespace. -/
structure Name where
  /-- The namespace. -/
  space : Space := .html
  /-- The tag. -/
  tag : String
deriving DecidableEq

namespace Name

/-- Whether this is the ordinary element of that tag. -/
def isHtml (n : Name) (tag : String) : Bool := n.space == .html && n.tag == tag

/-- Whether this is an ordinary element with one of those tags. -/
def isHtmlIn (n : Name) (tags : List String) : Bool := n.space == .html && tags.contains n.tag

/-! ## Integration points -/

/-- The formula elements that hold text. -/
def isMathText (n : Name) : Bool :=
  n.space == .mathml && ["mi", "mo", "mn", "ms", "mtext"].contains n.tag

/-- The drawing elements that hold ordinary content. -/
def isDrawingText (n : Name) : Bool :=
  n.space == .svg && ["foreignObject", "desc", "title"].contains n.tag

/-- The formula element that may hold content of another kind. -/
def isAnnotation (n : Name) : Bool := n.space == .mathml && n.tag == "annotation-xml"

/-! ## Scopes

A scope is the set of names at which the search for an open element ends. -/

/-- The elements that bound most searches. -/
def boundsScope (n : Name) : Bool :=
  n.isHtmlIn ["applet", "caption", "html", "table", "td", "th", "marquee", "object", "template"]
    || n.isMathText || n.isDrawingText

/-- The bounds of a search for a list item. -/
def boundsListScope (n : Name) : Bool := n.boundsScope || n.isHtmlIn ["ol", "ul"]

/-- The bounds of a search for a paragraph. -/
def boundsButtonScope (n : Name) : Bool := n.boundsScope || n.isHtml "button"

/-- The bounds of a search for a part of a table. -/
def boundsTableScope (n : Name) : Bool := n.isHtmlIn ["html", "table", "template"]

/-- The bounds of a search for a selection list. -/
def boundsSelectScope (n : Name) : Bool := !n.isHtmlIn ["optgroup", "option"]

/-- The elements under which the parts of a table stand. -/
def holdsSections (n : Name) : Bool := n.boundsTableScope

/-- The elements under which the rows of a table stand. -/
def holdsRows (n : Name) : Bool := n.isHtmlIn ["tbody", "tfoot", "thead", "template", "html"]

/-- The elements under which the cells of a table stand. -/
def holdsCells (n : Name) : Bool := n.isHtmlIn ["tr", "template", "html"]

/-! ## Other sets -/

/-- The headings. -/
def isHeading (n : Name) : Bool := n.isHtmlIn ["h1", "h2", "h3", "h4", "h5", "h6"]

/-- The cells of a table. -/
def isCell (n : Name) : Bool := n.isHtmlIn ["td", "th"]

/-- The elements in which text and most elements are out of place. -/
def isTableFrame (n : Name) : Bool := n.isHtmlIn ["table", "tbody", "tfoot", "thead", "tr"]

/-- The elements whose end tags may be left out. -/
def endsImplicitly (n : Name) : Bool :=
  n.isHtmlIn ["dd", "dt", "li", "option", "optgroup", "p", "rb", "rp", "rt", "rtc"]

/-- The elements that the end of a template closes. -/
def endsWithTemplate (n : Name) : Bool :=
  n.endsImplicitly
    || n.isHtmlIn ["caption", "colgroup", "tbody", "td", "tfoot", "th", "thead", "tr"]

/-- The elements that a stray end tag does not reach across. -/
def isSpecial (n : Name) : Bool :=
  n.isHtmlIn ["address", "applet", "area", "article", "aside", "base", "basefont", "bgsound",
      "blockquote", "body", "br", "button", "caption", "center", "col", "colgroup", "dd",
      "details", "dir", "div", "dl", "dt", "embed", "fieldset", "figcaption", "figure", "footer",
      "form", "frame", "frameset", "h1", "h2", "h3", "h4", "h5", "h6", "head", "header",
      "hgroup", "hr", "html", "iframe", "img", "input", "isindex", "li", "link", "listing",
      "main", "marquee", "menu", "meta", "nav", "noembed", "noframes", "noscript", "object",
      "ol", "p", "param", "plaintext", "pre", "script", "section", "select", "source", "style",
      "summary", "table", "tbody", "td", "template", "textarea", "tfoot", "th", "thead", "title",
      "tr", "track", "ul", "wbr", "xmp"]

end Name

end HtmlWalk.Html
