import Stencil.Text.Basic

/-!
# Lines

A line ends in a line feed or in a carriage return and a line feed, and the last one may end in
neither.
-/

namespace Stencil.Text

/-- A line without the carriage return at its end. -/
def dropReturn (line : Text) : Text :=
  if line.getLast? = some '\r' then line.dropLast else line

/-- The lines of a text, after the characters of the line that has begun, the latest first. -/
def linesAfter (begun : Text) : Text → List Text
  | [] => if begun = [] then [] else [begun.reverse]
  | c :: cs =>
    if c = '\n' then dropReturn begun.reverse :: linesAfter [] cs else linesAfter (c :: begun) cs

/-- The lines of a text, without what ends them. -/
def lines (t : Text) : List Text := linesAfter [] t

end Stencil.Text
