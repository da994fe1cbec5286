import HtmlWalk.Html.Token

/-!
# Names in foreign content

Tags and attribute names are read in lower case. Inside drawings and formulas some of them are
written in mixed case, and some attributes have a namespace of their own, of which only the local
name is kept.
-/

namespace HtmlWalk.Html

/-- The tags of drawings that are written in mixed case. -/
def drawingTags : List String :=
  ["altGlyph", "altGlyphDef", "altGlyphItem", "animateColor", "animateMotion", "animateTransform",
    "clipPath", "feBlend", "feColorMatrix", "feComponentTransfer", "feComposite",
    "feConvolveMatrix", "feDiffuseLighting", "feDisplacementMap", "feDistantLight",
    "feDropShadow", "feFlood", "feFuncA", "feFuncB", "feFuncG", "feFuncR", "feGaussianBlur",
    "feImage", "feMerge", "feMergeNode", "feMorphology", "feOffset", "fePointLight",
    "feSpecularLighting", "feSpotLight", "feTile", "feTurbulence", "foreignObject", "glyphRef",
    "linearGradient", "radialGradient", "textPath"]

/-- The attributes of drawings that are written in mixed case. -/
def drawingAttrs : List String :=
  ["attributeName", "attributeType", "baseFrequency", "baseProfile", "calcMode",
    "clipPathUnits", "diffuseConstant", "edgeMode", "filterUnits", "glyphRef",
    "gradientTransform", "gradientUnits", "kernelMatrix", "kernelUnitLength", "keyPoints",
    "keySplines", "keyTimes", "lengthAdjust", "limitingConeAngle", "markerHeight", "markerUnits",
    "markerWidth", "maskContentUnits", "maskUnits", "numOctaves", "pathLength",
    "patternContentUnits", "patternTransform", "patternUnits", "pointsAtX", "pointsAtY",
    "pointsAtZ", "preserveAlpha", "preserveAspectRatio", "primitiveUnits", "refX", "refY",
    "repeatCount", "repeatDur", "requiredExtensions", "requiredFeatures", "specularConstant",
    "specularExponent", "spreadMethod", "startOffset", "stdDeviation", "stitchTiles",
    "surfaceScale", "systemLanguage", "tableValues", "targetX", "targetY", "textLength",
    "viewBox", "viewTarget", "xChannelSelector", "yChannelSelector", "zoomAndPan"]

/-- The attributes of formulas that are written in mixed case. -/
def formulaAttrs : List String := ["definitionURL"]

/-- The attributes of foreign elements that have a namespace, with their local names. -/
def qualifiedAttrs : List (String × String) :=
  [("xlink:actuate", "actuate"), ("xlink:arcrole", "arcrole"), ("xlink:href", "href"),
    ("xlink:role", "role"), ("xlink:show", "show"), ("xlink:title", "title"),
    ("xlink:type", "type"), ("xml:lang", "lang"), ("xml:space", "space"),
    ("xmlns:xlink", "xlink")]

/-- The spelling of a name that was read in lower case, among names in mixed case. -/
def respell (spellings : List String) (name : String) : String :=
  (spellings.find? fun s => s.map Char.toLower == name).getD name

/-- The name of an attribute of a foreign element, without its namespace. -/
def localName (name : String) : String :=
  ((qualifiedAttrs.find? (·.1 == name)).map (·.2)).getD name

/-- The tag with its attributes renamed. -/
def Tag.renameAttrs (tag : Tag) (f : String → String) : Tag :=
  { tag with attrs := tag.attrs.map fun a => { a with name := f a.name } }

end HtmlWalk.Html
