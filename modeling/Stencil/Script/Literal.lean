import Stencil.Text.Basic

/-!
# Script literals

A text as a string literal of a script. Besides what the literal itself needs escaped, the
signs of markup and the two line separators of Unicode are written as code points, so the
literal cannot end a `script` element, start a character reference, or break a line.
-/

namespace Stencil.Script

/-- The two hexadecimal digits of a number below 256. -/
def byteDigits (n : Nat) : Text := [Nat.digitChar (n / 16), Nat.digitChar (n % 16)]

/-- A character as it stands between the quotes. -/
def literalForm (c : Char) : Text :=
  match c with
  | '"' => "\\\"".toList
  | '\\' => "\\\\".toList
  | '\x08' => "\\b".toList
  | '\t' => "\\t".toList
  | '\n' => "\\n".toList
  | '\x0c' => "\\f".toList
  | '\r' => "\\r".toList
  | '<' => "\\u003C".toList
  | '>' => "\\u003E".toList
  | '&' => "\\u0026".toList
  | '\u2028' => "\\u2028".toList
  | '\u2029' => "\\u2029".toList
  | c => if c.toNat < 0x20 then "\\u00".toList ++ byteDigits c.toNat else [c]

/-- The literal of a text, quotes included. -/
def literal (t : Text) : Text := '"' :: t.flatMap literalForm ++ ['"']

end Stencil.Script
