import Stencil.Text.Ascii
import Stencil.Text.Search

/-!
# Quoted texts and keys

The four ways in which a document writes a text: between double quotes with escapes or between
single quotes without, on one line or, with three quotes, on several. A reader takes what it
reads off the front of a text and gives what follows.
-/

namespace Stencil.Toml

/-- Whether a character may stand for itself in a text or a comment: any but the control characters,
of which only the tab may. -/
def isPlain (c : Char) : Bool := c = '\t' || (0x20 ≤ c.toNat && c.toNat ≠ 0x7F)

/-- Blanks between the parts of a line. -/
def isLineBlank (c : Char) : Bool := c = ' ' || c = '\t'

/-- The text without the blanks at its start. -/
def skipBlanks (t : Text) : Text := t.dropWhile isLineBlank

/-- Reads a line break. -/
def newline? : Text → Option Text
  | '\n' :: t => some t
  | '\r' :: '\n' :: t => some t
  | _ => none

/-- The text without blanks and line breaks at its start. -/
def skipBlankLines : Text → Text
  | [] => []
  | '\r' :: '\n' :: t => skipBlankLines t
  | c :: t => if isLineBlank c || c = '\n' then skipBlankLines t else c :: t

/-- Reads `n` hexadecimal digits of a code point. -/
def codePoint? (n : Nat) (t : Text) : Option (Char × Text) :=
  let digits := t.take n
  if digits.length = n ∧ digits.all Ascii.isHexDigit then
    let code := Ascii.ofHex digits
    if h : code.isValidChar then some (Char.ofNatAux code h, t.drop n) else none
  else none

/-- Reads an escape after its backslash. -/
def escape? : Text → Option (Char × Text)
  | [] => none
  | c :: t =>
    match c with
    | 'b' => some ('\x08', t)
    | 't' => some ('\t', t)
    | 'n' => some ('\n', t)
    | 'f' => some ('\x0c', t)
    | 'r' => some ('\r', t)
    | '"' => some ('"', t)
    | '\\' => some ('\\', t)
    | 'u' => codePoint? 4 t
    | 'U' => codePoint? 8 t
    | _ => none

/-- Reads the line break that a backslash escapes, with the blanks around it and the blank lines
after it. -/
def escapedBreak? (t : Text) : Option Text := (newline? (skipBlanks t)).map skipBlankLines

/-- Reads a text up to its closing double quote. -/
def basic? : Nat → Text → Option (Text × Text)
  | 0, _ => none
  | _ + 1, [] => none
  | n + 1, c :: cs =>
    if c = '"' then some ([], cs)
    else if c = '\\' then do
      let (d, rest) ← escape? cs
      let (t, rest) ← basic? n rest
      return (d :: t, rest)
    else if isPlain c then (basic? n cs).map fun (t, rest) => (c :: t, rest)
    else none

/-- Reads the quotes that close a text on several lines: three, with up to two before them that
belong to the text. -/
def closingQuotes? (quote : Char) (t : Text) : Option (Text × Text) :=
  let quotes := (t.take 5).takeWhile (· = quote)
  if 3 ≤ quotes.length then some (quotes.drop 3, t.drop quotes.length) else none

/-- Reads a text on several lines up to its three closing double quotes. -/
def multilineBasic? : Nat → Text → Option (Text × Text)
  | 0, _ => none
  | n + 1, t =>
    match closingQuotes? '"' t with
    | some closing => some closing
    | none =>
      match newline? t with
      | some rest => (multilineBasic? n rest).map fun (u, rest) => ('\n' :: u, rest)
      | none =>
        match t with
        | [] => none
        | '\\' :: cs =>
          match escapedBreak? cs with
          | some rest => multilineBasic? n rest
          | none => do
            let (d, rest) ← escape? cs
            let (u, rest) ← multilineBasic? n rest
            return (d :: u, rest)
        | c :: cs =>
          if isPlain c then (multilineBasic? n cs).map fun (u, rest) => (c :: u, rest) else none

/-- Reads a text up to its closing single quote. -/
def literal? (t : Text) : Option (Text × Text) :=
  let content := t.takeWhile fun c => isPlain c && c ≠ '\x27'
  match t.drop content.length with
  | '\x27' :: rest => some (content, rest)
  | _ => none

/-- Reads a text on several lines up to its three closing single quotes. -/
def multilineLiteral? : Nat → Text → Option (Text × Text)
  | 0, _ => none
  | n + 1, t =>
    match closingQuotes? '\x27' t with
    | some closing => some closing
    | none =>
      match newline? t with
      | some rest => (multilineLiteral? n rest).map fun (u, rest) => ('\n' :: u, rest)
      | none =>
        match t with
        | [] => none
        | c :: cs =>
          if isPlain c then (multilineLiteral? n cs).map fun (u, rest) => (c :: u, rest) else none

/-- The text without a line break at its start. -/
def dropBreak (t : Text) : Text := (newline? t).getD t

/-- Reads a text written in any of the four ways. -/
def string? (t : Text) : Option (Text × Text) :=
  match "\"\"\"".toList.isPrefixOf? t, "'''".toList.isPrefixOf? t with
  | some rest, _ => multilineBasic? (rest.length + 1) (dropBreak rest)
  | _, some rest => multilineLiteral? (rest.length + 1) (dropBreak rest)
  | none, none =>
    match t with
    | '"' :: rest => basic? (rest.length + 1) rest
    | '\x27' :: rest => literal? rest
    | _ => none

/-! ### Keys -/

/-- Whether a character may stand in a key without quotes. -/
def isBareKey (c : Char) : Bool := c.isAlphanum || c = '-' || c = '_'

/-- Reads one part of a key. -/
def keyPart? (t : Text) : Option (Text × Text) :=
  match t with
  | '"' :: rest => basic? (rest.length + 1) rest
  | '\x27' :: rest => literal? rest
  | _ =>
    let part := t.takeWhile isBareKey
    if part = [] then none else some (part, t.drop part.length)

/-- Reads the parts of a key with dots between them, and the blanks around every part. -/
def keyParts? : Nat → Text → Option (List Text × Text)
  | 0, _ => none
  | n + 1, t => do
    let (part, rest) ← keyPart? (skipBlanks t)
    match skipBlanks rest with
    | '.' :: rest => do
      let (parts, rest) ← keyParts? n rest
      return (part :: parts, rest)
    | rest => return ([part], rest)

/-- The depth at which a document is refused. -/
def depthLimit : Nat := 80

/-- Reads a key of fewer parts than the limit: those before the last, and the last. -/
def key? (t : Text) : Option ((List Text × Text) × Text) := do
  let (parts, rest) ← keyParts? (t.length + 1) t
  if depthLimit ≤ parts.length then none
  else do
    let last ← parts.getLast?
    return ((parts.dropLast, last), rest)

end Stencil.Toml
