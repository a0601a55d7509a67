import ElementLint.Markup.Token.Basic

/-!
# Names of SVG and MathML

Tags are read with small letters only. This module restores the spelling of the SVG tag names and of
the SVG and MathML attributes that have capitals, and drops the namespace in front of the names of
attributes of other vocabularies: an attribute is known by its local name.
-/

namespace ElementLint.Markup

/-- The SVG tag names that have capitals. -/
def svgTagNames : List String :=
  ["altGlyph", "altGlyphDef", "altGlyphItem", "animateColor", "animateMotion", "animateTransform",
    "clipPath", "feBlend", "feColorMatrix", "feComponentTransfer", "feComposite",
    "feConvolveMatrix", "feDiffuseLighting", "feDisplacementMap", "feDistantLight", "feDropShadow",
    "feFlood", "feFuncA", "feFuncB", "feFuncG", "feFuncR", "feGaussianBlur", "feImage", "feMerge",
    "feMergeNode", "feMorphology", "feOffset", "fePointLight", "feSpecularLighting", "feSpotLight",
    "feTile", "feTurbulence", "foreignObject", "glyphRef", "linearGradient", "radialGradient",
    "textPath"]

/-- The SVG attributes that have capitals. -/
def svgAttributeNames : List String :=
  ["attributeName", "attributeType", "baseFrequency", "baseProfile", "calcMode", "clipPathUnits",
    "diffuseConstant", "edgeMode", "filterUnits", "glyphRef", "gradientTransform",
    "gradientUnits", "kernelMatrix", "kernelUnitLength", "keyPoints", "keySplines", "keyTimes",
    "lengthAdjust", "limitingConeAngle", "markerHeight", "markerUnits", "markerWidth",
    "maskContentUnits", "maskUnits", "numOctaves", "pathLength", "patternContentUnits",
    "patternTransform", "patternUnits", "pointsAtX", "pointsAtY", "pointsAtZ", "preserveAlpha",
    "preserveAspectRatio", "primitiveUnits", "refX", "refY", "repeatCount", "repeatDur",
    "requiredExtensions", "requiredFeatures", "specularConstant", "specularExponent",
    "spreadMethod", "startOffset", "stdDeviation", "stitchTiles", "surfaceScale",
    "systemLanguage", "tableValues", "targetX", "targetY", "textLength", "viewBox", "viewTarget",
    "xChannelSelector", "yChannelSelector", "zoomAndPan"]

/-- The MathML attributes that have capitals. -/
def mathAttributeNames : List String :=
  ["definitionURL"]

/-- The attributes of other vocabularies: the name as written and the local name. -/
def qualifiedAttributeNames : List (String × String) :=
  [("xlink:actuate", "actuate"), ("xlink:arcrole", "arcrole"), ("xlink:href", "href"),
    ("xlink:role", "role"), ("xlink:show", "show"), ("xlink:title", "title"),
    ("xlink:type", "type"), ("xml:base", "base"), ("xml:lang", "lang"), ("xml:space", "space"),
    ("xmlns", "xmlns"), ("xmlns:xlink", "xlink")]

/-- The spelling in a list of a name written with small letters; the name itself if it is not in
the list. -/
def respell (spellings : List String) (name : String) : String :=
  (spellings.find? (fun spelling => spelling.toList.map Char.toLower == name.toList)).getD name

/-- The name of an attribute without its namespace. -/
def localName (name : String) : String :=
  (qualifiedAttributeNames.lookup name).getD name

/-- The attributes of a tag under their names in SVG or MathML. -/
def foreignAttributes (spellings : List String) (attributes : List Attribute) : List Attribute :=
  attributes.map (fun a => { a with name := localName (respell spellings a.name) })

end ElementLint.Markup
