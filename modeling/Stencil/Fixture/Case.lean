import Stencil.Fixture.Report
import Stencil.Text.Search
import Stencil.Toml.Document

/-!
# Fixtures

A fixture document holds cases: a fragment, the arguments it is rendered with, and what is
expected. A case that is known to fail says why.
-/

namespace Stencil.Fixture

/-- Whether a case is expected to hold. -/
inductive Status where
  | active
  /-- The case is known to fail. -/
  | expectedFailure
  deriving DecidableEq, Repr, Inhabited

/-- A case of a fixture document. -/
structure Case where
  name : Text
  input : Text
  expected : Text
  /-- Names and values, in order. -/
  arguments : List (Text × Text) := []
  scripts : List Text := []
  styles : List Text := []
  status : Status := .active
  reason : Option Text := none
  deriving DecidableEq, Repr

namespace Status

/-- The status that a word names. -/
def ofWord? (t : Text) : Option Status :=
  if t = "active".toList then some .active
  else if t = "xfail".toList then some .expectedFailure
  else none

/-- The status that a value names: a word, or a table with one key, which is the word and has
nothing in it. -/
def ofValue? : Toml.Value → Option Status
  | .string t => ofWord? t
  | .table _ _ [(word, v)] => if v.isEmptyCollection then ofWord? word else none
  | _ => none

end Status

namespace Case

/-- The name and the value at the start of a list; items after them are left alone. -/
def pair? (v : Toml.Value) : Option (Text × Text) := do
  match ← v.items? with
  | name :: value :: _ => return (← name.string?, ← value.string?)
  | _ => none

/-- The pairs of a list. -/
def pairs? (v : Toml.Value) : Option (List (Text × Text)) := do (← v.items?).mapM pair?

/-- The keys of a case. -/
def keys : List Text :=
  ["name", "input", "expected", "args", "scripts", "styles", "status", "reason"].map String.toList

/-- The case that a value of a document describes. -/
def ofValue? (v : Toml.Value) : Option Case := do
  match ← v.fields? keys with
  | [name, input, expected, arguments, scripts, styles, status, reason] =>
    return {
      name := ← Toml.required (·.string?) name
      input := ← Toml.required (·.string?) input
      expected := ← Toml.required (·.string?) expected
      arguments := ← Toml.optional pairs? [] arguments
      scripts := ← Toml.optional (·.strings?) [] scripts
      styles := ← Toml.optional (·.strings?) [] styles
      status := ← Toml.optional Status.ofValue? .active status
      reason := ← Toml.optional (fun v => v.string?.map some) none reason }
  | _ => none

/-- Whether a case that is known to fail says why. -/
def explains (c : Case) : Bool := c.status = .active || c.reason.isSome

/-- The cases of a fixture document; nothing if the document is malformed, or a case that is known
to fail does not say why. -/
def ofDocument? (t : Text) : Option (List Case) := do
  let document ← Toml.parse? t
  match ← document.fields? ["case".toList] with
  | [cases] => do
    let cases ← Toml.optional (fun v => v.items?.bind (·.mapM ofValue?)) [] cases
    if cases.all explains then return cases else none
  | _ => none

/-- The report of a case that gave something else than expected. -/
def mismatchReport (name input expected actual : Text) : Text :=
  "fixture '".toList ++ name ++ "' mismatch\ninput: \"".toList ++ reportText input ++
    "\"\nexpected: \"".toList ++ reportText expected ++ "\"\nactual: \"".toList ++
    reportText actual ++ "\"\n".toList ++
    differenceReport (Text.lines expected) (Text.lines actual)

end Case

/-- Whether a filter lets a case of a name through: one that is empty lets every case through. -/
def selects (filter name : Text) : Bool := filter = [] || Text.occurs filter name

/-! ### Fixture files -/

/-- What comes after the last dot of a file name; a dot at the start of the name does not count. -/
def extension? (name : Text) : Option Text :=
  match name.reverse.dropWhile (· ≠ '.') with
  | [] => none
  | [_] => none
  | _ :: _ => some (name.reverse.takeWhile (· ≠ '.')).reverse

/-- The order of texts by code points. -/
def precedes : Text → Text → Bool
  | [], _ => true
  | _ :: _, [] => false
  | c :: cs, d :: ds => c < d || (c = d && precedes cs ds)

/-- The names of the fixture files among those of a folder, in order. -/
def fileNames (names : List Text) : List Text :=
  (names.filter fun name => extension? name = some "toml".toList).mergeSort precedes

end Stencil.Fixture
