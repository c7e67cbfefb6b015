import Stencil.Text.Printable

/-!
# Quoted text

Text between double quotes on one line, for messages and reports: quotes and backslashes
are escaped, the usual control characters have their letters, and any other character that
is not shown as itself is written as its code point.
-/

namespace Stencil.Text

/-- The code point of a character in hexadecimal digits, in small letters. -/
def codePoint (c : Char) : Text := Nat.toDigits 16 c.toNat

/-- A character as it stands between the quotes. -/
def quotedForm (c : Char) : Text :=
  match c with
  | '\x00' => "\\0".toList
  | '\t' => "\\t".toList
  | '\r' => "\\r".toList
  | '\n' => "\\n".toList
  | '"' => "\\\"".toList
  | '\\' => "\\\\".toList
  | c => if isShown c then [c] else "\\u\x7b".toList ++ codePoint c ++ "\x7d".toList

/-- A text between double quotes. -/
def quote (t : Text) : Text := '"' :: t.flatMap quotedForm ++ ['"']

end Stencil.Text
