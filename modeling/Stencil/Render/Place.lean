import Stencil.Html.Element
import Stencil.Text.Space

/-!
# Places

Where a placeholder stands decides how its expansion is made safe. The element around a text
and the name of an attribute each have a place; a place has a policy, and a policy says in
which form the values of arguments are filled in.
-/

namespace Stencil.Render

/-- The form in which the values of arguments are filled in. -/
inductive Form where
  /-- Processed as block markup; stash markers are kept. -/
  | markup
  /-- As literals of a script. -/
  | script
  /-- Unable to end a declaration of a style. -/
  | style
  /-- As plain text. -/
  | plain
  deriving DecidableEq, Repr, Inhabited

namespace Form

/-- Every form, in the order in which they are listed. -/
def all : List Form := [.markup, .script, .style, .plain]

/-- Whether stash markers and character references in values are resolved first. Values that are
processed as markup keep them for the processor. -/
def resolvesText (f : Form) : Bool := f ≠ .markup

/-- The form as a log names it. -/
def label : Form → String
  | .markup => "Wikitext"
  | .script => "UnquotedScript"
  | .style => "Style"
  | .plain => "Plain"

end Form

/-- How an expansion is made safe. -/
inductive Policy where
  /-- Plain values, in an attribute that the serializer escapes. -/
  | attributeText
  /-- Literals, in a script. -/
  | script
  /-- Values that cannot end a declaration, in a style. -/
  | style
  /-- Plain values, in an element that holds text only. -/
  | elementText
  /-- Processed values, in ordinary content. -/
  | markup
  deriving DecidableEq, Repr, Inhabited

/-- The form of values under a policy. -/
def Policy.form : Policy → Form
  | .attributeText => .plain
  | .script => .script
  | .style => .style
  | .elementText => .plain
  | .markup => .markup

/-- The place inside an element. -/
inductive Place where
  /-- The element that asks for modules, whose contents are dropped. -/
  | directive
  | script
  | style
  /-- Another element whose text is not markup. -/
  | rawText
  /-- An element whose text is kept as it is laid out. -/
  | preformatted
  | ordinary
  deriving DecidableEq, Repr, Inhabited

namespace Place

/-- HTML elements whose text is kept as it is laid out, and those that hold escapable text only. -/
def preformattedNames : List Text := ["pre", "listing", "textarea", "title"].map String.toList

/-- The place inside an element. The directive counts in any vocabulary and any case; the other
special places are inside HTML elements only. -/
def inside (directive : Text) (e : Html.Element) : Place :=
  if Ascii.sameName e.name directive then .directive
  else if !e.isHtml then .ordinary
  else if e.name = "script".toList then .script
  else if e.name = "style".toList then .style
  else if e.name ∈ preformattedNames then .preformatted
  else if Html.isRawText e.name then .rawText
  else .ordinary

/-- The policy of a place; what stands in the directive is never expanded. -/
def policy? : Place → Option Policy
  | .directive => none
  | .script => some .script
  | .style => some .style
  | .rawText | .preformatted => some .elementText
  | .ordinary => some .markup

end Place

/-- The place in the value of an attribute. -/
inductive AttributePlace where
  | eventHandler
  | style
  | plain
  deriving DecidableEq, Repr, Inhabited

namespace AttributePlace

/-- The place in the value of an attribute of a name. -/
def ofName (name : Text) : AttributePlace :=
  if "on".toList.isPrefixOf name then .eventHandler
  else if name = "style".toList then .style
  else .plain

/-- The policy of a place. -/
def policy : AttributePlace → Policy
  | .eventHandler => .script
  | .style => .style
  | .plain => .attributeText

end AttributePlace

/-- Whether the value of an attribute is a URL that has to be allowed. -/
def isUrlAttribute (name : Text) : Bool := name = "href".toList || name = "src".toList

/-! ### Placeholders in a text -/

/-- Whether a text may hold a placeholder: whether two opening braces stand together in it. -/
def hasMarker : Text → Bool
  | [] => false
  | [_] => false
  | c :: d :: cs => (c = '\x7b' && d = '\x7b') || hasMarker (d :: cs)

/-- Whether the brace that leaves none of the braces before it open, counting `depth` open ones,
comes at the end of the text. -/
def closesAtEnd : Nat → Text → Bool
  | depth, [] => depth = 0
  | depth, c :: cs =>
    if c = '\x7b' then closesAtEnd (depth + 1) cs
    else if c = '\x7d' then
      if depth ≤ 1 && cs ≠ [] then false else closesAtEnd (depth - 1) cs
    else closesAtEnd depth cs

/-- Whether a text, apart from the space around it, is one placeholder and nothing else. -/
def isSinglePlaceholder (t : Text) : Bool :=
  let t := Text.trim t
  "\x7b\x7b\x7b".toList.isPrefixOf t && "\x7d\x7d\x7d".toList.isSuffixOf t && closesAtEnd 0 t

end Stencil.Render
