import Stencil.Text.Ascii

/-!
# Character references

A character reference is an ampersand, a name or a number, and a semicolon. `read?`
reads one after its ampersand, `decode` replaces every one in a text. What is not a
reference, for want of its semicolon or because it names nothing, stays as it is.
-/

namespace Stencil.Html.Reference

/-- The named references and what they stand for. -/
def named : List (Text × Text) :=
  [("AMP", "&"), ("Aacute", "\u00C1"), ("Agrave", "\u00C0"), ("Auml", "\u00C4"),
    ("Ccedil", "\u00C7"), ("Eacute", "\u00C9"), ("GT", ">"), ("LT", "<"), ("Ntilde", "\u00D1"),
    ("Ouml", "\u00D6"), ("QUOT", "\""), ("Uuml", "\u00DC"), ("aacute", "\u00E1"),
    ("agrave", "\u00E0"), ("amp", "&"), ("apos", "'"), ("auml", "\u00E4"), ("bull", "\u2022"),
    ("ccedil", "\u00E7"), ("cent", "\u00A2"), ("colon", ":"), ("comma", ","), ("copy", "\u00A9"),
    ("deg", "\u00B0"), ("divide", "\u00F7"), ("dollar", "$"), ("eacute", "\u00E9"),
    ("egrave", "\u00E8"), ("equals", "="), ("euro", "\u20AC"), ("excl", "!"), ("frac12", "\u00BD"),
    ("frac14", "\u00BC"), ("frac34", "\u00BE"), ("gt", ">"), ("hellip", "\u2026"),
    ("iexcl", "\u00A1"), ("iquest", "\u00BF"), ("laquo", "\u00AB"), ("lbrace", "\x7b"),
    ("lbrack", "["), ("lcub", "\x7b"), ("ldquo", "\u201C"), ("lpar", "("), ("lsqb", "["),
    ("lsquo", "\u2018"), ("lt", "<"), ("mdash", "\u2014"), ("middot", "\u00B7"),
    ("nbsp", "\u00A0"), ("ndash", "\u2013"), ("ntilde", "\u00F1"), ("num", "#"),
    ("ouml", "\u00F6"), ("para", "\u00B6"), ("percnt", "%"), ("period", "."), ("plus", "+"),
    ("plusmn", "\u00B1"), ("pound", "\u00A3"), ("quest", "?"), ("quot", "\""), ("raquo", "\u00BB"),
    ("rbrace", "\x7d"), ("rbrack", "]"), ("rcub", "\x7d"), ("rdquo", "\u201D"), ("reg", "\u00AE"),
    ("rpar", ")"), ("rsqb", "]"), ("rsquo", "\u2019"), ("sect", "\u00A7"), ("semi", ";"),
    ("shy", "\u00AD"), ("sol", "/"), ("szlig", "\u00DF"), ("times", "\u00D7"),
    ("trade", "\u2122"), ("uuml", "\u00FC"), ("verbar", "|"), ("vert", "|"), ("yen", "\u00A5")].map
    fun (name, meaning) => (name.toList, meaning.toList)

/-- The most digits of a decimal reference: those of 1114111. -/
def maxDecimalDigits : Nat := 7

/-- The most digits of a hexadecimal reference: those of 10FFFF. -/
def maxHexDigits : Nat := 6

/-- The character with a code point; surrogates and numbers past U+10FFFF have none. -/
def scalar? (n : Nat) : Option Char :=
  if h : n.isValidChar then some (Char.ofNatAux n h) else none

/-- Reads the digits of a numeric reference and its semicolon. -/
def numeric? (isDigit : Char → Bool) (maxDigits : Nat) (value : Text → Nat) (t : Text) :
    Option (Text × Text) :=
  let digits := t.takeWhile isDigit
  match t.dropWhile isDigit with
  | ';' :: rest =>
    if digits = [] ∨ maxDigits < digits.length then none
    else (scalar? (value digits)).map fun c => ([c], rest)
  | _ => none

/-- Reads the name of a reference and its semicolon. -/
def name? (t : Text) : Option (Text × Text) :=
  match t.dropWhile Char.isAlphanum with
  | ';' :: rest => (named.lookup (t.takeWhile Char.isAlphanum)).map fun meaning => (meaning, rest)
  | _ => none

/-- Reads a reference after its ampersand: what it stands for, and the text after it. -/
def read? : Text → Option (Text × Text)
  | '#' :: 'x' :: t => numeric? Ascii.isHexDigit maxHexDigits Ascii.ofHex t
  | '#' :: 'X' :: t => numeric? Ascii.isHexDigit maxHexDigits Ascii.ofHex t
  | '#' :: t => numeric? Char.isDigit maxDecimalDigits Ascii.ofDecimal t
  | t => name? t

theorem length_of_numeric? {isDigit : Char → Bool} {n : Nat} {value : Text → Nat}
    {t d r : Text} (h : numeric? isDigit n value t = some (d, r)) : r.length < t.length := by
  have hs := (List.dropWhile_suffix (l := t) isDigit).length_le
  unfold numeric? at h
  split at h
  · next rest hr =>
    dsimp only at h
    split at h
    · cases h
    · obtain ⟨c, _, he⟩ := Option.map_eq_some_iff.1 h
      cases he
      rw [hr, List.length_cons] at hs
      omega
  · cases h

theorem length_of_name? {t d r : Text} (h : name? t = some (d, r)) : r.length < t.length := by
  have hs := (List.dropWhile_suffix (l := t) Char.isAlphanum).length_le
  unfold name? at h
  split at h
  · next rest hr =>
    obtain ⟨m, _, he⟩ := Option.map_eq_some_iff.1 h
    cases he
    rw [hr, List.length_cons] at hs
    omega
  · cases h

theorem length_of_read? {t d r : Text} (h : read? t = some (d, r)) : r.length < t.length := by
  unfold read? at h
  split at h
  · have := length_of_numeric? h
    simp only [List.length_cons]
    omega
  · have := length_of_numeric? h
    simp only [List.length_cons]
    omega
  · have := length_of_numeric? h
    simp only [List.length_cons]
    omega
  · exact length_of_name? h

/-- The text with every character reference replaced by what it stands for. -/
def decode : Text → Text
  | [] => []
  | c :: cs =>
    if c = '&' then
      match h : read? cs with
      | some (meaning, rest) =>
        have := length_of_read? h
        meaning ++ decode rest
      | none => '&' :: decode cs
    else c :: decode cs
termination_by t => t.length
decreasing_by all_goals simp only [List.length_cons]; omega

end Stencil.Html.Reference
