import Stencil.Toml.Number
import Stencil.Toml.Table

/-!
# Statements

A document is a sequence of statements, each on lines of its own: the header of a table, the
header of the next table of a list, or a key and its value.
-/

namespace Stencil.Toml

/-- Reads a comment, up to the end of its line. -/
def comment? : Text → Option Text
  | '#' :: t => some (t.dropWhile isPlain)
  | _ => none

/-- Reads blanks, line breaks and comments between the items of a list. -/
def skipSpace : Nat → Text → Option Text
  | 0, _ => none
  | n + 1, t =>
    let t := skipBlanks t
    match newline? t, comment? t with
    | some rest, _ => skipSpace n rest
    | _, some rest => (newline? rest).bind (skipSpace n)
    | none, none => some t

/-- Reads the items of a list and its closing bracket; there may be a comma after the last. -/
def items? (value? : Text → Option (Value × Text)) : Nat → Text → Option (List Value × Text)
  | 0, _ => none
  | n + 1, t => do
    let t ← skipSpace (t.length + 1) t
    match t with
    | ']' :: rest => return ([], rest)
    | _ => do
      let (v, t) ← value? t
      let t ← skipSpace (t.length + 1) t
      match t with
      | ']' :: rest => return ([v], rest)
      | ',' :: rest => do
        let (vs, rest) ← items? value? n rest
        return (v :: vs, rest)
      | _ => none

/-- Reads a key, an equals sign and a value. -/
def keyValue? (value? : Text → Option (Value × Text)) (t : Text) :
    Option ((List Text × Text × Value) × Text) := do
  let ((path, name), t) ← key? t
  let t ← expect? '=' t
  let (v, t) ← value? (skipBlanks t)
  return ((path, name, v), t)

/-- Reads the entries of a table in braces and its closing brace, after those before them. -/
def braced? (value? : Text → Option (Value × Text)) : Nat → Entries → Text → Option (Entries × Text)
  | 0, _, _ => none
  | n + 1, entries, t => do
    let ((path, name, v), t) ← keyValue? value? t
    let entries ← insertClosed? path name v entries
    match skipBlanks t with
    | '\x7d' :: rest => return (entries, rest)
    | ',' :: rest => braced? value? n entries rest
    | _ => none

/-- Reads a value in which lists and tables are nested less than `n` deep. -/
def value? : Nat → Text → Option (Value × Text)
  | n, t =>
    match t with
    | [] => none
    | c :: cs =>
      if c = '"' || c = '\x27' then (string? t).map fun (s, rest) => (.string s, rest)
      else if c = '[' then
        match n with
        | 0 => none
        | n + 1 => (items? (value? n) t.length cs).map fun (vs, rest) => (.array vs, rest)
      else if c = '\x7b' then
        match n with
        | 0 => none
        | n + 1 =>
          match skipBlanks cs with
          | '\x7d' :: rest => some (.table true .header [], rest)
          | rest => (braced? (value? n) t.length [] rest).map fun (es, rest) =>
              (.table true .header es, rest)
      else
        match "true".toList.isPrefixOf? t, "false".toList.isPrefixOf? t with
        | some rest, _ => some (.boolean true, rest)
        | _, some rest => some (.boolean false, rest)
        | none, none =>
          match time? t with
          | some (literal, rest) => some (.time literal, rest)
          | none =>
            ((float? t).or (integer? t)).map fun (literal, rest) => (.number literal, rest)

/-- A statement of a document. -/
inductive Statement where
  /-- The header of a table. -/
  | header (path : List Text) (name : Text)
  /-- The header of the next table of a list. -/
  | item (path : List Text) (name : Text)
  /-- A key and its value. -/
  | entry (path : List Text) (name : Text) (value : Value)
  deriving Repr

/-- Reads the end of a line: blanks, a comment or none, and a line break or the end of the text. -/
def lineEnd? (t : Text) : Option Text :=
  let t := skipBlanks t
  let t := (comment? t).getD t
  if t = [] then some [] else newline? t

/-- Reads the header of a table, or of the next table of a list. -/
def header? (t : Text) : Option (Statement × Text) :=
  match t with
  | '[' :: '[' :: t => do
    let ((path, name), t) ← key? t
    let t ← expect? ']' t
    let t ← expect? ']' t
    return (.item path name, t)
  | '[' :: t => do
    let ((path, name), t) ← key? t
    let t ← expect? ']' t
    return (.header path name, t)
  | _ => none

/-- Reads a key and its value on a line. -/
def line? (t : Text) : Option (Statement × Text) :=
  (keyValue? (value? (depthLimit - 1)) t).map fun ((path, name, v), rest) =>
    (.entry path name v, rest)

/-- Reads the statements of a document to its end. -/
def statements? : Nat → Text → Option (List Statement)
  | 0, _ => none
  | n + 1, t =>
    let t := skipBlanks t
    match t with
    | [] => some []
    | c :: _ =>
      match newline? t with
      | some rest => statements? n rest
      | none =>
        if c = '#' then (lineEnd? t).bind (statements? n)
        else do
          let (s, t) ← if c = '[' then header? t else line? t
          let t ← lineEnd? t
          let ss ← statements? n t
          return s :: ss

end Stencil.Toml
