import Stencil.Text.Ascii

/-!
# Escapes of style sheets

A backslash takes the meaning from the character after it, stands for a character by its code
point, or joins two lines. `escapeValue` writes a value so that it cannot end a declaration;
`unescape` reads every escape of a text.
-/

namespace Stencil.Css

/-- A character of a value, written so that it cannot end the declaration. -/
def valueForm : Char → Text
  | '\\' => "\\\\".toList
  | ';' => "\\;".toList
  | c => [c]

/-- Escapes semicolons, and backslashes, which could take an escape away. -/
def escapeValue (t : Text) : Text := t.flatMap valueForm

/-- The character that stands in the place of one that cannot be written. -/
def replacement : Char := '\uFFFD'

/-- The most digits of a code point. -/
def maxDigits : Nat := 6

/-- The character that a code point in an escape stands for. -/
def escaped (n : Nat) : Char :=
  if h : n.isValidChar then if n = 0 then replacement else Char.ofNatAux n h else replacement

/-- The text without one blank at its start. -/
def dropBlank : Text → Text
  | [] => []
  | c :: cs => if Ascii.isBlank c then cs else c :: cs

theorem length_dropBlank_drop_le (n : Nat) (t : Text) :
    (dropBlank (t.drop n)).length ≤ t.length := by
  have hd := List.length_drop (i := n) (l := t)
  unfold dropBlank
  split
  · simp
  · next c cs h =>
    rw [h, List.length_cons] at hd
    split
    · omega
    · rw [List.length_cons]
      omega

/-- The text with its escapes read. A code point takes up to six digits and one blank after them; an
escaped line break is dropped; any other escaped character is itself. -/
def unescape : Text → Text
  | [] => []
  | [c] => [c]
  | c :: d :: cs =>
    if c ≠ '\\' then c :: unescape (d :: cs)
    else if Ascii.isHexDigit d then
      let digits := (cs.take (maxDigits - 1)).takeWhile Ascii.isHexDigit
      escaped (Ascii.ofHex (d :: digits)) :: unescape (dropBlank (cs.drop digits.length))
    else if d = '\r' && cs.head? = some '\n' then unescape cs.tail
    else if d = '\n' || d = '\r' || d = '\x0c' then unescape cs
    else d :: unescape cs
termination_by t => t.length
decreasing_by
  · simp
  · exact Nat.lt_add_right 1 (Nat.lt_succ_of_le (length_dropBlank_drop_le _ cs))
  all_goals simp only [List.length_cons, List.length_tail]; omega

end Stencil.Css
