import Stencil.Text.Basic

/-!
# Escaping

The characters that would be read as markup, written as character references: one
table each for text, for attribute values between double quotes, and for text whose
ampersands are already written as they should be.
-/

namespace Stencil.Html

/-- A character as it is written in text. -/
def textForm : Char → Text
  | '&' => "&amp;".toList
  | '<' => "&lt;".toList
  | '>' => "&gt;".toList
  | '\u00A0' => "&nbsp;".toList
  | c => [c]

/-- A character as it is written in an attribute value. -/
def attributeForm : Char → Text
  | '&' => "&amp;".toList
  | '"' => "&quot;".toList
  | '\u00A0' => "&nbsp;".toList
  | c => [c]

/-- A character as it is written where only angle brackets are escaped. -/
def angleForm : Char → Text
  | '<' => "&lt;".toList
  | '>' => "&gt;".toList
  | c => [c]

/-- Escapes ampersands, angle brackets and no-break spaces. -/
def escapeText (t : Text) : Text := t.flatMap textForm

/-- Escapes ampersands, double quotes and no-break spaces. -/
def escapeAttribute (t : Text) : Text := t.flatMap attributeForm

/-- Escapes angle brackets and leaves ampersands as they are. -/
def escapeAngles (t : Text) : Text := t.flatMap angleForm

end Stencil.Html
