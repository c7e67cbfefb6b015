import Stencil.Text.Lines
import Stencil.Text.Quoted

/-!
# Reports of differences

What a person is shown when a text is not what it should be: the first line that differs, with
two lines before it and two after it, and how many lines there are.
-/

namespace Stencil.Fixture

/-- A character of a report, which stands on one line. -/
def reportForm (c : Char) : Text :=
  match c with
  | '\\' => "\\\\".toList
  | '"' => "\\\"".toList
  | '\n' => "\\n".toList
  | '\r' => "\\r".toList
  | '\t' => "\\t".toList
  | c =>
    if c < ' ' then
      let digits := (Text.codePoint c).map Char.toUpper
      "\\u\x7b".toList ++ List.replicate (2 - digits.length) '0' ++ digits ++ "\x7d".toList
    else [c]

/-- A text as it stands in a report. -/
def reportText (t : Text) : Text := t.flatMap reportForm

/-- A number in decimal digits. -/
def decimal (n : Nat) : Text := Nat.toDigits 10 n

/-- A number in decimal digits, with spaces before them up to a width of four. -/
def column (n : Nat) : Text := List.replicate (4 - (decimal n).length) ' ' ++ decimal n

/-- The place of the first line that differs. -/
def firstDifference? (expected actual : List Text) : Option Nat :=
  (List.range (max expected.length actual.length)).find? fun i => expected[i]? ≠ actual[i]?

/-- Two lines of a report: one that was expected, and the one that stands in its place. -/
def comparedLines (expected actual : List Text) (difference i : Nat) : Text :=
  let shown (lines : List Text) : Text := reportText (lines[i]?.getD "<missing>".toList)
  let start := (if i = difference then '>' else ' ') :: ' ' :: column (i + 1)
  start ++ "  expected: ".toList ++ shown expected ++ '\n' ::
    start ++ "    actual: ".toList ++ shown actual ++ ['\n']

/-- The report of the difference between two texts, given as lines. -/
def differenceReport (expected actual : List Text) : Text :=
  let count := max expected.length actual.length
  let difference :=
    match firstDifference? expected actual with
    | none => []
    | some i =>
      let first := i - 2
      let last := min (i + 3) count
      "first mismatch at line ".toList ++ decimal (i + 1) ++ " (showing ".toList ++
        decimal (first + 1) ++ "..=".toList ++ decimal last ++ "):\n".toList ++
        (List.range' first (last - first)).flatMap (comparedLines expected actual i)
  difference ++ "expected ".toList ++ decimal expected.length ++ " lines, actual ".toList ++
    decimal actual.length ++ " lines\n".toList

end Stencil.Fixture
