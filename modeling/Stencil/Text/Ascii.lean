import Stencil.Text.Basic

/-!
# ASCII classes and case

Markup is written in ASCII: letters, digits, blanks and the case of names are those of
ASCII alone, and every other character is left as it is.
-/

namespace Stencil.Ascii

/-- The blanks of markup: space, tab, line feed, form feed and carriage return. -/
def isBlank (c : Char) : Bool :=
  c = ' ' || c = '\t' || c = '\n' || c = '\x0c' || c = '\r'

/-- A hexadecimal digit of either case. -/
def isHexDigit (c : Char) : Bool :=
  c.isDigit || ('a' ≤ c && c ≤ 'f') || ('A' ≤ c && c ≤ 'F')

/-- The value of a hexadecimal digit. -/
def hexValue (c : Char) : Nat :=
  if c.isDigit then c.toNat - '0'.toNat
  else if 'a' ≤ c then c.toNat - 'a'.toNat + 10
  else c.toNat - 'A'.toNat + 10

/-- The number written by decimal digits. -/
def ofDecimal (ds : Text) : Nat := ds.foldl (fun n d => 10 * n + hexValue d) 0

/-- The number written by hexadecimal digits. -/
def ofHex (ds : Text) : Nat := ds.foldl (fun n d => 16 * n + hexValue d) 0

/-- A text with its capital letters made small. -/
def lower (t : Text) : Text := t.map Char.toLower

/-- Whether two names differ in the case of letters at most. -/
def sameName (s t : Text) : Bool := lower s = lower t

/-- What follows `name` at the start of the text, written in any case. -/
def stripName? (name t : Text) : Option Text :=
  if t.length < name.length then none
  else if sameName (t.take name.length) name then some (t.drop name.length) else none

theorem length_of_stripName? {name t r : Text} (h : stripName? name t = some r) :
    t.length = name.length + r.length := by
  unfold stripName? at h
  split at h
  · cases h
  · split at h
    · cases h
      simp only [List.length_drop]
      omega
    · cases h

end Stencil.Ascii
