import Stencil.Text.Ascii

/-!
# Vocabulary

The names that HTML, SVG and MathML give a meaning: which elements have no contents,
whose contents are not markup, which start tags close a paragraph, where foreign content
begins and ends, and how SVG spells the names that markup writes in small letters.
-/

namespace Stencil.Html

/-- Elements without contents and without an end tag. -/
def voidNames : List Text :=
  ["area", "base", "basefont", "bgsound", "br", "col", "embed", "frame", "hr", "img", "input",
    "keygen", "link", "meta", "param", "source", "track", "wbr"].map String.toList

/-- Elements whose contents are text without markup and without character references. -/
def rawTextNames : List Text :=
  ["script", "style", "xmp", "iframe", "noembed", "noframes", "noscript", "plaintext"].map
    String.toList

/-- Elements whose contents are text without markup but with character references. -/
def escapableNames : List Text := ["textarea", "title"].map String.toList

/-- Elements that drop a line feed right after their start tag. -/
def leadingNewlineNames : List Text := ["pre", "textarea", "listing"].map String.toList

/-- The headings. -/
def headingNames : List Text := ["h1", "h2", "h3", "h4", "h5", "h6"].map String.toList

/-- Elements whose start tag closes an open paragraph. -/
def paragraphClosingNames : List Text :=
  ["address", "article", "aside", "blockquote", "center", "details", "dialog", "dir", "div", "dl",
    "fieldset", "figcaption", "figure", "footer", "form", "h1", "h2", "h3", "h4", "h5", "h6",
    "header", "hgroup", "hr", "listing", "main", "menu", "nav", "ol", "p", "plaintext", "pre",
    "search", "section", "summary", "table", "ul", "xmp"].map String.toList

/-- HTML elements whose start tag ends the foreign content around it. -/
def breakoutNames : List Text :=
  ["b", "big", "blockquote", "body", "br", "center", "code", "dd", "div", "dl", "dt", "em", "embed",
    "h1", "h2", "h3", "h4", "h5", "h6", "head", "hr", "i", "img", "li", "listing", "menu", "meta",
    "nobr", "ol", "p", "pre", "ruby", "s", "small", "span", "strong", "strike", "sub", "sup",
    "table", "tt", "u", "ul", "var"].map String.toList

/-- Attributes that make a `font` start tag end the foreign content around it. -/
def fontBreakoutAttributes : List Text := ["color", "face", "size"].map String.toList

/-- SVG elements whose contents are HTML again. -/
def svgIntegrationNames : List Text := ["foreignObject", "desc", "title"].map String.toList

/-- MathML elements whose contents are HTML again. -/
def mathIntegrationNames : List Text :=
  ["mi", "mo", "mn", "ms", "mtext", "annotation-xml"].map String.toList

/-- SVG element names with capital letters. -/
def svgElementNames : List Text :=
  ["altGlyph", "altGlyphDef", "altGlyphItem", "animateColor", "animateMotion", "animateTransform",
    "clipPath", "feBlend", "feColorMatrix", "feComponentTransfer", "feComposite",
    "feConvolveMatrix", "feDiffuseLighting", "feDisplacementMap", "feDistantLight", "feDropShadow",
    "feFlood", "feFuncA", "feFuncB", "feFuncG", "feFuncR", "feGaussianBlur", "feImage", "feMerge",
    "feMergeNode", "feMorphology", "feOffset", "fePointLight", "feSpecularLighting", "feSpotLight",
    "feTile", "feTurbulence", "foreignObject", "glyphRef", "linearGradient", "radialGradient",
    "textPath"].map String.toList

/-- SVG attribute names with capital letters. -/
def svgAttributeNames : List Text :=
  ["attributeName", "attributeType", "baseFrequency", "baseProfile", "calcMode", "clipPathUnits",
    "diffuseConstant", "edgeMode", "filterUnits", "glyphRef", "gradientTransform", "gradientUnits",
    "kernelMatrix", "kernelUnitLength", "keyPoints", "keySplines", "keyTimes", "lengthAdjust",
    "limitingConeAngle", "markerHeight", "markerUnits", "markerWidth", "maskContentUnits",
    "maskUnits", "numOctaves", "pathLength", "patternContentUnits", "patternTransform",
    "patternUnits", "pointsAtX", "pointsAtY", "pointsAtZ", "preserveAlpha", "preserveAspectRatio",
    "primitiveUnits", "refX", "refY", "repeatCount", "repeatDur", "requiredExtensions",
    "requiredFeatures", "specularConstant", "specularExponent", "spreadMethod", "startOffset",
    "stdDeviation", "stitchTiles", "surfaceScale", "systemLanguage", "tableValues", "targetX",
    "targetY", "textLength", "viewBox", "viewTarget", "xChannelSelector", "yChannelSelector",
    "zoomAndPan"].map String.toList

def isVoid (name : Text) : Bool := name ∈ voidNames

def isRawText (name : Text) : Bool := name ∈ rawTextNames

def isEscapable (name : Text) : Bool := name ∈ escapableNames

def dropsLeadingNewline (name : Text) : Bool := name ∈ leadingNewlineNames

def isHeading (name : Text) : Bool := name ∈ headingNames

def closesParagraph (name : Text) : Bool := name ∈ paragraphClosingNames

/-- The spelling with capital letters that the list has for a name in small letters; any other
name is its own spelling. -/
def restoreCase (spellings : List Text) (name : Text) : Text :=
  (spellings.find? fun s => Ascii.lower s = name).getD name

end Stencil.Html
