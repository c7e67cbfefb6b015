import Stencil.Toml.Quoted

/-!
# Numbers and times

The numbers, dates and times of a document. A reader gives the number of characters it takes
by giving the text after them.
-/

namespace Stencil.Toml

/-- Reads digits with single underscores between them, after the first digit. -/
def moreDigits (isDigit : Char → Bool) : Text → Text
  | '_' :: d :: t => if isDigit d then moreDigits isDigit t else '_' :: d :: t
  | d :: t => if isDigit d then moreDigits isDigit t else d :: t
  | [] => []

/-- Reads digits with single underscores between them. -/
def digits? (isDigit : Char → Bool) : Text → Option Text
  | d :: t => if isDigit d then some (moreDigits isDigit t) else none
  | [] => none

/-- The text without a sign at its start. -/
def skipSign : Text → Text
  | '+' :: t => t
  | '-' :: t => t
  | t => t

/-- Reads a decimal number with a sign or none; a zero at the start stands alone. -/
def decimal? (t : Text) : Option Text :=
  match skipSign t with
  | '0' :: rest => some rest
  | rest => digits? Char.isDigit rest

/-- What was read of a text, given what is left of it. -/
def taken (t rest : Text) : Text := t.take (t.length - rest.length)

/-- The digits of a literal, without signs and underscores. -/
def bareDigits (t : Text) : Text := t.filter Ascii.isHexDigit

/-- The least number that a word of 64 bits with a sign cannot hold. -/
def wordLimit : Nat := 0x8000000000000000

/-- Reads a whole number of the range of 64 bits with a sign. -/
def integer? (t : Text) : Option (Text × Text) :=
  let inBase (isDigit : Char → Bool) (base : Nat) (digits : Text) : Option (Text × Text) := do
    let rest ← digits? isDigit digits
    let value := (bareDigits (taken digits rest)).foldl (fun n d => base * n + Ascii.hexValue d) 0
    if value < wordLimit then some (taken t rest, rest) else none
  match t with
  | '0' :: 'x' :: digits => inBase Ascii.isHexDigit 16 digits
  | '0' :: 'o' :: digits => inBase (fun c => '0' ≤ c && c ≤ '7') 8 digits
  | '0' :: 'b' :: digits => inBase (fun c => c = '0' || c = '1') 2 digits
  | _ => do
    let rest ← decimal? t
    let value := Ascii.ofDecimal (bareDigits (taken t rest))
    if value < wordLimit + (if t.head? = some '-' then 1 else 0) then some (taken t rest, rest)
    else none

/-- Reads the exponent of a number. -/
def exponent? : Text → Option Text
  | c :: t => if c = 'e' || c = 'E' then digits? Char.isDigit (skipSign t) else none
  | [] => none

/-- The least whole number that is nearer to infinity than to any double. -/
def doubleLimit : Nat := Nat.pow 2 1024 - Nat.pow 2 970

/-- Whether the decimal number `m · 10^e` is nearer to infinity than to any double. -/
def overflows (m : Nat) (e : Int) : Bool :=
  let size := (Nat.toDigits 10 m).length + e
  if m = 0 || size < 300 then false
  else if 320 < size then true
  else if 0 ≤ e then doubleLimit ≤ m * Nat.pow 10 e.toNat
  else doubleLimit * Nat.pow 10 (-e).toNat ≤ m

/-- Whether a positive number with a fraction or an exponent, as written, is infinite as a double.
-/
def isInfinite (literal : Text) : Bool :=
  let digits := fun t : Text => t.filter Char.isDigit
  let mantissa := literal.takeWhile fun c => c ≠ 'e' && c ≠ 'E'
  let power := literal.drop (mantissa.length + 1)
  let fraction := (mantissa.dropWhile (· ≠ '.')).drop 1
  let exponent : Int := Ascii.ofDecimal (digits power)
  let exponent := if power.head? = some '-' then -exponent else exponent
  literal.head? ≠ some '-' &&
    overflows (Ascii.ofDecimal (digits mantissa)) (exponent - (digits fraction).length)

/-- Reads a number with a fraction, an exponent, or both, or one of the two words for what is no
number. -/
def float? (t : Text) : Option (Text × Text) :=
  let finite : Option Text := do
    let rest ← decimal? t
    match exponent? rest with
    | some rest => some rest
    | none =>
      match rest with
      | '.' :: fraction => do
        let rest ← digits? Char.isDigit fraction
        return (exponent? rest).getD rest
      | _ => none
  match finite with
  | some rest => if isInfinite (taken t rest) then none else some (taken t rest, rest)
  | none =>
    match "inf".toList.isPrefixOf? (skipSign t), "nan".toList.isPrefixOf? (skipSign t) with
    | some rest, _ => some (taken t rest, rest)
    | _, some rest => some (taken t rest, rest)
    | none, none => none

/-- Reads `n` digits of a number that lies in a range. -/
def fixed? (n low high : Nat) (t : Text) : Option (Nat × Text) :=
  let digits := t.take n
  let value := Ascii.ofDecimal digits
  if digits.length = n ∧ digits.all Char.isDigit ∧ low ≤ value ∧ value ≤ high then
    some (value, t.drop n)
  else none

/-- Reads a sign that has to be there. -/
def expect? (c : Char) : Text → Option Text
  | d :: t => if d = c then some t else none
  | [] => none

/-- The number of days of a month. -/
def daysIn (year month : Nat) : Nat :=
  if month = 2 then
    if year % 4 = 0 && (year % 100 ≠ 0 || year % 400 = 0) then 29 else 28
  else if month = 4 || month = 6 || month = 9 || month = 11 then 30
  else 31

/-- Reads a date. -/
def date? (t : Text) : Option Text := do
  let (year, t) ← fixed? 4 0 9999 t
  let t ← expect? '-' t
  let (month, t) ← fixed? 2 1 12 t
  let t ← expect? '-' t
  let (_, t) ← fixed? 2 1 (daysIn year month) t
  return t

/-- Reads an hour and a minute. -/
def hourMinute? (t : Text) : Option Text := do
  let (_, t) ← fixed? 2 0 23 t
  let t ← expect? ':' t
  let (_, t) ← fixed? 2 0 59 t
  return t

/-- Reads a time of day. -/
def clock? (t : Text) : Option Text := do
  let t ← hourMinute? t
  let t ← expect? ':' t
  let (_, t) ← fixed? 2 0 60 t
  match t with
  | '.' :: fraction =>
    let rest := fraction.dropWhile Char.isDigit
    return if rest.length < fraction.length then rest else t
  | _ => return t

/-- Reads the distance of a time from that of the prime meridian. -/
def offset? : Text → Option Text
  | 'Z' :: t => some t
  | 'z' :: t => some t
  | '+' :: t => hourMinute? t
  | '-' :: t => hourMinute? t
  | _ => none

/-- Reads a date, a time of day, or both with an offset or none. -/
def time? (t : Text) : Option (Text × Text) :=
  let after : Option Text :=
    match date? t with
    | some day =>
      match day with
      | c :: rest =>
        if c = 'T' || c = 't' || c = ' ' then
          match clock? rest with
          | some rest => some ((offset? rest).getD rest)
          | none => some day
        else some day
      | [] => some day
    | none => clock? t
  after.map fun rest => (taken t rest, rest)

end Stencil.Toml
