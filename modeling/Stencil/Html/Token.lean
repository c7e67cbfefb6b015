import Stencil.Html.Vocabulary

/-!
# Tokens

What a fragment is read as, before its elements are nested.
-/

namespace Stencil.Html

/-- An attribute as written: one without a value differs from one with the empty value. -/
abbrev WrittenAttribute := Text × Option Text

/-- A token of a fragment. Names are in small letters and values are decoded. -/
inductive Token where
  | doctype (content : Text)
  | startTag (name : Text) (attributes : List WrittenAttribute) (selfClosing : Bool)
  | endTag (name : Text)
  | comment (content : Text)
  | text (content : Text)
  deriving DecidableEq, Repr, Inhabited

namespace Token

/-- The name of the element whose body of plain text starts after this token, if the element
turns out to be an HTML element. -/
def opensBody? : Token → Option Text
  | .startTag name _ false => if isRawText name || isEscapable name then some name else none
  | _ => none

/-- The token of a run of text; an empty run has none. -/
def ofRun (t : Text) : List Token := if t = [] then [] else [.text t]

@[simp] theorem ofRun_nil : ofRun [] = [] := rfl

theorem length_ofRun_le (t : Text) : (ofRun t).length ≤ 1 := by
  unfold ofRun
  split <;> simp

end Token

end Stencil.Html
