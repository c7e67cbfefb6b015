import Stencil.Toml.Value

/-!
# Building tables

Where a key puts its value. A path is followed from table to table, and tables that are not
there yet are made on the way. Nothing that is there is ever replaced, a table in braces
cannot be extended, and one that has a header cannot be extended by dotted keys.
-/

namespace Stencil.Toml

/-- Changes the value of a key, or makes one. -/
def alter? (key : Text) (f : Option Value → Option Value) : Entries → Option Entries
  | [] => (f none).map fun v => [(key, v)]
  | (k, v) :: es =>
    if k = key then (f (some v)).map fun w => (k, w) :: es
    else (alter? key f es).map ((k, v) :: ·)

/-- The entries without those of a key. -/
def erase (key : Text) (es : Entries) : Entries := es.filter fun e => e.1 ≠ key

/-- Changes the last item of a list. -/
def alterLast? (f : Value → Option Value) (items : List Value) : Option (List Value) := do
  let last ← items.getLast?
  let last ← f last
  return items.dropLast ++ [last]

/-- Puts a value under a key that has none. A table that came about by a dotted key takes values
from dotted keys only, and any other table only from plain ones. -/
def put? (throughDots : Bool) (name : Text) (v : Value) (origin : Origin) (es : Entries) :
    Option Entries :=
  if throughDots != decide (origin = .dotted) then none
  else if (es.lookup name).isSome then none
  else some (es ++ [(name, v)])

/-- What is done to a table at the end of a path. -/
abbrev Change := Origin → Entries → Option Entries

/-- Follows the path of a dotted key in a table, and changes the table at its end. -/
def throughDots? (closed : Bool) (change : Change) : List Text → Origin → Entries → Option Entries
  | [], origin, es => change origin es
  | key :: path, _, es =>
    alter? key (fun
      | none => (throughDots? closed change path .dotted []).map (.table closed .dotted)
      | some (.table c origin inner) =>
        if c ≠ closed || origin = .header then none
        else (throughDots? closed change path origin inner).map (.table c origin)
      | some (.tables items) =>
        (alterLast? (fun
          | .table c origin inner =>
            (throughDots? closed change path origin inner).map (.table c origin)
          | _ => none) items).map .tables
      | some _ => none) es

/-- Adds an entry to a table in braces. -/
def insertClosed? (path : List Text) (name : Text) (v : Value) (es : Entries) : Option Entries :=
  throughDots? true (put? (!path.isEmpty) name v) path .header es

/-- Follows the path of a header in a table, and changes the table at its end. -/
def throughHeaders? (change : Change) : List Text → Origin → Entries → Option Entries
  | [], origin, es => change origin es
  | key :: path, _, es =>
    alter? key (fun
      | none => (throughHeaders? change path .implied []).map (.table false .implied)
      | some (.table false origin inner) =>
        (throughHeaders? change path origin inner).map (.table false origin)
      | some (.tables items) =>
        (alterLast? (fun
          | .table c origin inner =>
            (throughHeaders? change path origin inner).map (.table c origin)
          | _ => none) items).map .tables
      | some _ => none) es

/-- Opens the table of a header. One that was only named on the way to others is taken over, and
moves to the end. -/
def openTable? (name : Text) : Change := fun _ es =>
  match es.lookup name with
  | none => some (es ++ [(name, .table false .header [])])
  | some (.table false .implied inner) =>
    some (erase name es ++ [(name, .table false .header inner)])
  | some _ => none

/-- Opens the next table of a list. -/
def openItem? (name : Text) : Change := fun _ es =>
  alter? name (fun
    | none => some (.tables [.table false .header []])
    | some (.tables items) => some (.tables (items ++ [.table false .header []]))
    | some _ => none) es

end Stencil.Toml
