import Stencil.Css.Forbidden
import Stencil.Css.Normal
import Stencil.Notice

/-!
# Sanitizing styles

A style whose whole text comes from a value is let through in normal form, or replaced by a
comment that says what was wrong with it.
-/

namespace Stencil.Css

/-- What became of a style. -/
inductive Verdict where
  /-- The style in normal form. -/
  | accepted (style : Text)
  | controlCharacter
  /-- The normal form that has a forbidden construct in it. -/
  | insecure (style : Text)
  deriving DecidableEq, Repr

/-- Judges a style by its normal form; control characters count before forbidden constructs. -/
def judge (t : Text) : Verdict :=
  let style := normalize t
  if style.any isControl then .controlCharacter
  else if isForbidden style then .insecure style
  else .accepted style

namespace Verdict

/-- What is written in the place of an insecure style. -/
def insecureText : Text := "/* insecure input */".toList

/-- What is written in the place of a style with a control character. -/
def controlCharacterText : Text := "/* invalid control char */".toList

/-- What is written for a style. -/
def text : Verdict → Text
  | .accepted style => style
  | .controlCharacter => controlCharacterText
  | .insecure _ => insecureText

/-- What a log is told about a style. -/
def notice? : Verdict → Option Notice
  | .accepted _ => none
  | .controlCharacter =>
    some ⟨.debug, "html_templates", "rejected css with control characters".toList⟩
  | .insecure style =>
    some ⟨.debug, "html_templates", "rejected insecure css ".toList ++ Text.quote style⟩

end Verdict

/-- What is written for a style. -/
def sanitize (t : Text) : Text := (judge t).text

end Stencil.Css
