import Stencil.Text.Basic

/-!
# Space

The white space of Unicode (property `White_Space`), and trimming by it.
-/

namespace Stencil.Text

/-- Whether a character has the Unicode property `White_Space`. -/
def isSpace (c : Char) : Bool :=
  let n := c.toNat
  (0x09 ≤ n && n ≤ 0x0D) || n = 0x20 || n = 0x85 || n = 0xA0 || n = 0x1680 ||
    (0x2000 ≤ n && n ≤ 0x200A) || n = 0x2028 || n = 0x2029 || n = 0x202F || n = 0x205F ||
    n = 0x3000

/-- A text without the white space at its end. -/
def trimEnd (t : Text) : Text := (t.reverse.dropWhile isSpace).reverse

/-- A text without the white space at its ends. -/
def trim (t : Text) : Text := trimEnd (t.dropWhile isSpace)

end Stencil.Text
