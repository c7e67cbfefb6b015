import Stencil.Html.Element
import Stencil.Notice

/-!
# Events

A parsed fragment, told in order: text and comments, elements that are opened and closed,
and notices. What happens between the start and the end of an element are its contents.
-/

namespace Stencil.Html

/-- One thing that happens inside the innermost open element. -/
inductive Event where
  | text (content : Text)
  | comment (content : Text)
  /-- An element without contents. -/
  | leaf (e : Element)
  /-- An element is opened. -/
  | enter (e : Element)
  /-- The innermost open element is closed. -/
  | leave
  | notice (n : Notice)
  deriving DecidableEq, Repr

namespace Event

/-- A notice about how tags nest. -/
def nesting (message : Text) : Event := .notice ⟨.debug, "html.tree_builder", message⟩

def doctypeIgnored (content : Text) : Event :=
  nesting ("ignoring doctype in fragment: ".toList ++ Text.quote content)

def foreignLeft (name : Text) : Event :=
  nesting ('<' :: name ++ "> breaks out of foreign content".toList)

def documentTagIgnored (name : Text) : Event :=
  nesting ("ignoring <".toList ++ name ++ "> in fragment".toList)

def headingNested (name : Text) : Event := nesting ("nested heading <".toList ++ name ++ ['>'])

def anchorNested : Event := nesting "nested <a> closes the open one".toList

def paragraphMissing : Event := nesting "</p> without open p".toList

def breakEnded : Event := nesting "</br> treated as <br>".toList

def strayEndTag (name : Text) : Event := nesting ("ignoring stray </".toList ++ name ++ ['>'])

end Event

end Stencil.Html
