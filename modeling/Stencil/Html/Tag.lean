import Stencil.Html.Reference
import Stencil.Html.Token

/-!
# Tags

Reading the inside of a tag. A name runs up to a blank, a slash or a closing bracket; an
attribute name also ends at an equals sign, but not at one it starts with. A value is
quoted, or runs up to a blank, a closing bracket or the slash before one. A tag that the
text ends in is no tag.
-/

namespace Stencil.Html.Tag

/-- Whether a character ends the name of a tag. -/
def endsName (c : Char) : Bool := Ascii.isBlank c || c = '/' || c = '>'

/-- Whether a character belongs to the name of an attribute after its first. -/
def inAttributeName (c : Char) : Bool := !endsName c && c ≠ '='

/-- The text after the next closing bracket; nothing if there is none. -/
def afterBracket (t : Text) : Text := (t.dropWhile (· ≠ '>')).drop 1

/-- Splits off an unquoted value. -/
def unquoted : Text → Text × Text
  | [] => ([], [])
  | c :: cs =>
    if Ascii.isBlank c || c = '>' || (c = '/' && cs.head? = some '>') then ([], c :: cs)
    else
      let (value, rest) := unquoted cs
      (c :: value, rest)

/-- Splits off a value up to its closing quote. -/
def quoted? (quote : Char) (t : Text) : Option (Text × Text) :=
  match t.dropWhile (· ≠ quote) with
  | [] => none
  | _ :: rest => some (t.takeWhile (· ≠ quote), rest)

/-- Reads the value of an attribute after its equals sign. -/
def valueAfterEquals? (t : Text) : Option (Text × Text) :=
  match t.dropWhile Ascii.isBlank with
  | '"' :: rest => quoted? '"' rest
  | '\x27' :: rest => quoted? '\x27' rest
  | rest => some (unquoted rest)

/-- Reads the rest of an attribute after its name: no value, or an equals sign and a value. -/
def value? (t : Text) : Option (Option Text × Text) :=
  match t.dropWhile Ascii.isBlank with
  | '=' :: rest => (valueAfterEquals? rest).map fun (v, r) => (some (Reference.decode v), r)
  | rest => some (none, rest)

/-- Reads an attribute whose name starts with the character `c`. -/
def attribute? (c : Char) (t : Text) : Option (WrittenAttribute × Text) :=
  (value? (t.dropWhile inAttributeName)).map fun (v, rest) =>
    ((Ascii.lower (c :: t.takeWhile inAttributeName), v), rest)

/-- Adds an attribute unless one of its name is there: the first one counts. -/
def addNew (as : List WrittenAttribute) (a : WrittenAttribute) : List WrittenAttribute :=
  if as.any fun b => b.1 = a.1 then as else as ++ [a]

theorem length_unquoted_le (t : Text) : (unquoted t).2.length ≤ t.length := by
  induction t with
  | nil => simp [unquoted]
  | cons c cs ih =>
    unfold unquoted
    split
    · simp
    · simp only [List.length_cons]
      omega

theorem length_of_quoted? {quote : Char} {t v r : Text} (h : quoted? quote t = some (v, r)) :
    r.length < t.length := by
  unfold quoted? at h
  split at h
  · cases h
  · next hr =>
    cases h
    exact Text.length_lt_of_dropWhile hr

theorem length_of_valueAfterEquals? {t v r : Text} (h : valueAfterEquals? t = some (v, r)) :
    r.length ≤ t.length := by
  have hs := (List.dropWhile_suffix (l := t) Ascii.isBlank).length_le
  unfold valueAfterEquals? at h
  split at h
  · next rest hr =>
    have := length_of_quoted? h
    rw [hr, List.length_cons] at hs
    omega
  · next rest hr =>
    have := length_of_quoted? h
    rw [hr, List.length_cons] at hs
    omega
  · have he := Option.some.inj h
    rw [show r = (unquoted (t.dropWhile Ascii.isBlank)).2 by rw [he]]
    exact Nat.le_trans (length_unquoted_le _) hs

theorem length_of_value? {t : Text} {v : Option Text} {r : Text} (h : value? t = some (v, r)) :
    r.length ≤ t.length := by
  have hs := (List.dropWhile_suffix (l := t) Ascii.isBlank).length_le
  unfold value? at h
  split at h
  · next rest hr =>
    obtain ⟨⟨w, u⟩, hw, he⟩ := Option.map_eq_some_iff.1 h
    cases he
    have := length_of_valueAfterEquals? hw
    rw [hr, List.length_cons] at hs
    omega
  · cases h
    exact hs

theorem length_of_attribute? {c : Char} {t : Text} {a : WrittenAttribute} {r : Text}
    (h : attribute? c t = some (a, r)) : r.length ≤ t.length := by
  obtain ⟨⟨v, u⟩, hv, he⟩ := Option.map_eq_some_iff.1 h
  cases he
  exact Nat.le_trans (length_of_value? hv) (List.dropWhile_suffix _).length_le

/-- Reads attributes up to the end of the tag, after those found before: all of them, whether the
tag ends in a slash, and the text after the tag. -/
def attributes? (found : List WrittenAttribute) (t : Text) :
    Option (List WrittenAttribute × Bool × Text) :=
  match hd : t.dropWhile Ascii.isBlank with
  | [] => none
  | c :: cs =>
    have := Text.length_lt_of_dropWhile hd
    if c = '>' then some (found, false, cs)
    else if c = '/' then
      if cs.head? = some '>' then some (found, true, cs.tail) else attributes? found cs
    else
      match h : attribute? c cs with
      | none => none
      | some (a, rest) =>
        have := length_of_attribute? h
        attributes? (addNew found a) rest
termination_by t.length

theorem attributes?_nil {t : Text} (h : t.dropWhile Ascii.isBlank = [])
    (found : List WrittenAttribute) : attributes? found t = none := by
  rw [attributes?]
  split
  · rfl
  · next h' =>
    rw [h] at h'
    cases h'

/-- After blanks stands the end of the tag, a slash that is dropped, or an attribute. -/
theorem attributes?_cons {t cs : Text} {c : Char} (h : t.dropWhile Ascii.isBlank = c :: cs)
    (found : List WrittenAttribute) : attributes? found t =
      if c = '>' then some (found, false, cs)
      else if c = '/' then
        if cs.head? = some '>' then some (found, true, cs.tail) else attributes? found cs
      else (attribute? c cs).bind fun (a, rest) => attributes? (addNew found a) rest := by
  rw [attributes?]
  split
  · next h' =>
    rw [h] at h'
    cases h'
  · next h' =>
    rw [h] at h'
    cases h'
    split
    · rfl
    · split
      · rfl
      · split
        · next ha => simp only [ha, Option.bind_none]
        · next ha => simp only [ha, Option.bind_some]

theorem length_of_attributes? {found as : List WrittenAttribute} {b : Bool} {t r : Text}
    (h : attributes? found t = some (as, b, r)) : r.length < t.length := by
  fun_induction attributes? found t with
  | case1 => cases h
  | case2 _ _ _ _ hlt =>
    cases h
    exact hlt
  | case3 _ _ cs _ _ hlt =>
    cases h
    have := List.length_tail (l := cs)
    omega
  | case4 _ _ _ _ _ hlt _ ih => exact Nat.lt_trans (ih h) hlt
  | case5 => cases h
  | case6 _ _ _ _ _ _ _ _ _ _ _ hle ih =>
    have := ih h
    omega

/-! ### Close tags -/

/-- Reads the close tag of `name` after its opening bracket, and gives the text after it. The
name may be in any case, what follows it is ignored up to the closing bracket, and a close tag that
the text ends in counts. -/
def closeTag? (name : Text) : Text → Option Text
  | '/' :: t =>
    match Ascii.stripName? name t with
    | some rest => if rest.head?.all endsName then some (afterBracket rest) else none
    | none => none
  | _ => none

/-- What lies before and after the first close tag of `name`. -/
def cutCloseTag? (name : Text) : Text → Option (Text × Text)
  | [] => none
  | c :: cs =>
    match if c = '<' then closeTag? name cs else none with
    | some after => some ([], after)
    | none => (cutCloseTag? name cs).map fun (before, after) => (c :: before, after)

theorem length_afterBracket_le (t : Text) : (afterBracket t).length ≤ t.length := by
  have := (List.dropWhile_suffix (l := t) (· ≠ '>')).length_le
  simp only [afterBracket, List.length_drop]
  omega

theorem length_of_closeTag? {name t r : Text} (h : closeTag? name t = some r) :
    r.length < t.length := by
  unfold closeTag? at h
  split at h
  · split at h
    · next rest hr =>
      split at h
      · cases h
        have := Ascii.length_of_stripName? hr
        have := length_afterBracket_le rest
        simp only [List.length_cons]
        omega
      · cases h
    · cases h
  · cases h

theorem length_of_cutCloseTag? {name t before after : Text}
    (h : cutCloseTag? name t = some (before, after)) :
    before.length + after.length < t.length := by
  induction t generalizing before after with
  | nil => cases h
  | cons c cs ih =>
    unfold cutCloseTag? at h
    split at h
    · next r hr =>
      cases h
      split at hr
      · have := length_of_closeTag? hr
        simp only [List.length_nil, List.length_cons]
        omega
      · cases hr
    · obtain ⟨⟨b, a⟩, hb, he⟩ := Option.map_eq_some_iff.1 h
      cases he
      have := ih hb
      simp only [List.length_cons]
      omega

end Stencil.Html.Tag
