import Stencil.Text.Basic

/-!
# Values of documents

A settings document is a table of keys and values. Values other than texts, lists and tables
are told apart only by their kind, because nothing that is read from a document has them.
-/

namespace Stencil.Toml

/-- How a table came to be in a document, which decides how it may be extended. -/
inductive Origin where
  /-- Written as a header of its own, or in braces. -/
  | header
  /-- Named on the way to another header. -/
  | implied
  /-- Named on the way to a dotted key. -/
  | dotted
  deriving DecidableEq, Repr

/-- A value of a document. -/
inductive Value where
  | string (t : Text)
  /-- A number as it is written. -/
  | number (literal : Text)
  | boolean (b : Bool)
  /-- A date, a time, or both, as it is written. -/
  | time (literal : Text)
  | array (items : List Value)
  /-- A table and its entries, in the order of first mention. `closed` says that it stands in braces
  and cannot be extended from outside. -/
  | table (closed : Bool) (origin : Origin) (entries : List (Text × Value))
  /-- The tables of one repeated header. -/
  | tables (items : List Value)
  deriving Repr, Inhabited

/-- The entries of a table. -/
abbrev Entries := List (Text × Value)

namespace Value

/-- The text of a value. -/
def string? : Value → Option Text
  | .string t => some t
  | _ => none

/-- The items of a list of any kind. -/
def items? : Value → Option (List Value)
  | .array items | .tables items => some items
  | _ => none

/-- The texts of a list that holds nothing else. -/
def strings? (v : Value) : Option (List Text) := v.items?.bind (·.mapM string?)

/-- Whether a value is a list or a table with nothing in it. -/
def isEmptyCollection : Value → Bool
  | .array items | .tables items => items.isEmpty
  | .table _ _ entries => entries.isEmpty
  | _ => false

/-- The fields of a record with the given keys: the entries of a table that has no other key, or the
items of a list taken in the order of the keys. -/
def fields? (keys : List Text) : Value → Option (List (Option Value))
  | .table _ _ entries =>
    if entries.all fun e => e.1 ∈ keys then some (keys.map fun k => entries.lookup k) else none
  | .array items | .tables items => some ((List.range keys.length).map (items[·]?))
  | _ => none

end Value

/-- Reads a field that may be left out. -/
def optional {α : Type} (read? : Value → Option α) (default : α) : Option Value → Option α
  | none => some default
  | some v => read? v

/-- Reads a field that has to be there. -/
def required {α : Type} (read? : Value → Option α) (field : Option Value) : Option α :=
  field.bind read?

end Stencil.Toml
