import Stencil.Css.Escape
import Stencil.Html.Reference
import Stencil.Text.Search

/-!
# Normal form of style sheets

What a style means once references and escapes are read and comments are gone. Spellings that
only hide a word from a reader have one normal form.
-/

namespace Stencil.Css

/-- The start of a comment. -/
def commentStart : Text := "/*".toList

/-- The end of a comment. -/
def commentEnd : Text := "*/".toList

/-- What follows a comment is shorter than the text. -/
theorem length_lt_of_comment {t before body inner after : Text}
    (h : Text.cut? commentStart t = some (before, body))
    (h' : Text.cut? commentEnd body = some (inner, after)) : after.length < t.length := by
  have := Text.length_of_cut? h
  have := Text.length_of_cut? h'
  have : 0 < commentStart.length := by decide
  omega

/-- The text without its closed comments. -/
def dropComments (t : Text) : Text :=
  match h : Text.cut? commentStart t with
  | none => t
  | some (before, body) =>
    match h' : Text.cut? commentEnd body with
    | none => t
    | some (_, after) =>
      have := length_lt_of_comment h h'
      before ++ dropComments after
termination_by t.length
decreasing_by exact this

/-- The text up to a comment that is not closed. -/
def beforeComment (t : Text) : Text :=
  match Text.cut? commentStart t with
  | some (before, _) => before
  | none => t

/-- The normal form: character references decoded, escapes read, comments dropped. -/
def normalize (t : Text) : Text :=
  beforeComment (dropComments (unescape (Html.Reference.decode t)))

end Stencil.Css
