import Stencil.Html.Vocabulary

/-!
# Elements

An element of a parsed fragment: its name, the vocabulary it belongs to, and its
attributes in the order of the source.
-/

namespace Stencil.Html

/-- The vocabulary an element belongs to. -/
inductive Namespace where
  | html
  | svg
  | math
  deriving DecidableEq, Repr, Inhabited

/-- Attributes in source order; one without a value has the empty value. -/
abbrev Attributes := List (Text × Text)

namespace Attributes

/-- The value of the first attribute with a name. -/
def get? (as : Attributes) (name : Text) : Option Text := as.lookup name

/-- Whether some attribute has the name. -/
def contains (as : Attributes) (name : Text) : Bool := as.any fun a => a.1 = name

end Attributes

/-- An element as the serializer sees it, without its contents. -/
structure Element where
  name : Text
  ns : Namespace := .html
  attributes : Attributes := []
  /-- Whether its start tag was written with a slash before the closing bracket. -/
  selfClosing : Bool := false
  deriving DecidableEq, Repr, Inhabited

namespace Element

/-- Whether this is an HTML element. -/
def isHtml (e : Element) : Bool := e.ns = .html

/-- Whether this is the HTML element of a name. -/
def isHtmlNamed (e : Element) (name : Text) : Bool := e.isHtml && e.name = name

/-- Whether this is a foreign element whose contents are HTML. -/
def isIntegrationPoint (e : Element) : Bool :=
  match e.ns with
  | .html => false
  | .svg => e.name ∈ svgIntegrationNames
  | .math => e.name ∈ mathIntegrationNames

/-- Whether the contents of the element are parsed by the rules of HTML. -/
def holdsHtml (e : Element) : Bool := e.isHtml || e.isIntegrationPoint

/-- Whether text in the element is written as it is. -/
def holdsRawText (e : Element) : Bool := e.isHtml && isRawText e.name

end Element

end Stencil.Html
