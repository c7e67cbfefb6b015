import Stencil.Text.Ascii
import Stencil.Text.Space

/-!
# Forbidden constructs of style sheets

The constructs that load a resource or run a script. Each is a sequence of words with white
space between them where the list has a gap. The case of letters does not matter, and neither
does the case of the two characters outside ASCII that fold to ASCII letters.
-/

namespace Stencil.Css

/-- A character with its case folded, as far as the words of this module are concerned. -/
def fold (c : Char) : Char :=
  if c = '\u017F' then 's' else if c = '\u212A' then 'k' else c.toLower

/-- A part of a construct. -/
inductive Part where
  /-- A word, in any case. -/
  | word (w : Text)
  /-- White space, or nothing. -/
  | gap
  deriving DecidableEq, Repr

/-- The text after a word at its start. -/
def afterWord? : Text → Text → Option Text
  | [], t => some t
  | _ :: _, [] => none
  | w :: ws, c :: cs => if fold c = w then afterWord? ws cs else none

/-- The text after a construct at its start. -/
def after? : List Part → Text → Option Text
  | [], t => some t
  | .word w :: parts, t => (afterWord? w t).bind (after? parts)
  | .gap :: parts, t => after? parts (t.dropWhile Text.isSpace)

/-- The constructs that are forbidden wherever they occur. -/
def forbidden : List (List Part) :=
  let w := fun s : String => Part.word s.toList
  [[w "expression"],
    [w "filter", .gap, w ":", .gap, w "progid", .gap, w ":"],
    [w "accelerator", .gap, w ":"],
    [w "-o-link", .gap, w ":"],
    [w "-o-link-source", .gap, w ":"],
    [w "-o-replace", .gap, w ":"],
    [w "url", .gap, w "("],
    [w "image", .gap, w "("],
    [w "image-set", .gap, w "("]]

/-- The start of a function that reads an attribute. -/
def attributeStart : List Part := [.word "attr".toList, .gap, .word "(".toList]

/-- Whether a character separates the arguments of a function. -/
def isSeparator (c : Char) : Bool := Text.isSpace c || c = ','

/-- Whether a separator with the word `url` after it comes before a closing parenthesis. -/
def separatesUrl : Text → Bool
  | [] => false
  | c :: cs =>
    c ≠ ')' &&
      ((isSeparator c && (afterWord? "url".toList cs).isSome) || separatesUrl cs)

/-- Whether the arguments of a function that reads an attribute name the type `url` after at least
one character. -/
def readsUrl : Text → Bool
  | [] => false
  | c :: cs => c ≠ ')' && separatesUrl cs

/-- Whether a forbidden construct stands at the start of a text. -/
def startsForbidden (t : Text) : Bool :=
  forbidden.any (fun parts => (after? parts t).isSome) ||
    (after? attributeStart t).any readsUrl

/-- Whether a forbidden construct occurs in a text. -/
def isForbidden : Text → Bool
  | [] => false
  | c :: cs => startsForbidden (c :: cs) || isForbidden cs

/-- Whether a character is a control character that no style needs, or the mark of one that could
not be written. -/
def isControl (c : Char) : Bool :=
  let n := c.toNat
  n ≤ 0x08 || n = 0x0B || (0x0E ≤ n && n ≤ 0x1F) || n = 0x7F || n = 0xFFFD

end Stencil.Css
