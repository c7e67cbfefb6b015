import Stencil.Toml.Statement

/-!
# Documents

A document is built from its statements in order. A header opens a table, and the entries up to
the next header belong to it.
-/

namespace Stencil.Toml

/-- A document while it is built. -/
structure Draft where
  root : Entries := []
  /-- The path of the table that entries are added to. -/
  current : List Text := []

/-- Adds one statement to a document. -/
def Draft.add? (d : Draft) : Statement → Option Draft
  | .header path name => do
    let root ← throughHeaders? (openTable? name) path .header d.root
    return { root, current := path ++ [name] }
  | .item path name => do
    let root ← throughHeaders? (openItem? name) path .header d.root
    return { root, current := path ++ [name] }
  | .entry path name v => do
    let add : Change := throughDots? false (put? (!path.isEmpty) name v) path
    let root ← throughHeaders? add d.current .header d.root
    return { d with root }

/-- The mark that may stand before the first character of a document. -/
def byteOrderMark : Char := '\uFEFF'

/-- The table that a document describes. -/
def parse? (t : Text) : Option Value := do
  let t := if t.head? = some byteOrderMark then t.tail else t
  let statements ← statements? (t.length + 1) t
  let d ← statements.foldlM Draft.add? {}
  return .table false .header d.root

end Stencil.Toml
