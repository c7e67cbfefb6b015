/-!
# Text

Text is a list of characters, so a scanner is a recursive function on the list and
never holds a position that could fall inside a character. Byte counts are functions
of text: `byteLength` measures it in UTF-8, and `slice?` cuts by bytes, with no answer
when a cut leaves the text or splits a character.
-/

namespace Stencil

/-- A sequence of Unicode characters. -/
abbrev Text := List Char

/-- Texts that compare equal are equal, which makes membership in a list of texts decidable. -/
instance instLawfulBEqText : LawfulBEq Text := inferInstance

namespace Text

/-- The number of bytes of the UTF-8 form of a text. -/
def byteLength : Text → Nat
  | [] => 0
  | c :: t => c.utf8Size + byteLength t

/-- The text after its first `n` bytes, if those are whole characters of it. -/
def dropBytes? : Nat → Text → Option Text
  | 0, t => some t
  | _ + 1, [] => none
  | n + 1, c :: cs =>
    if c.utf8Size ≤ n + 1 then dropBytes? (n + 1 - c.utf8Size) cs else none

/-- The first `n` bytes of the text, if those are whole characters of it. -/
def takeBytes? : Nat → Text → Option Text
  | 0, _ => some []
  | _ + 1, [] => none
  | n + 1, c :: cs =>
    if c.utf8Size ≤ n + 1 then (takeBytes? (n + 1 - c.utf8Size) cs).map (c :: ·) else none

/-- The `length` bytes from byte `start` on, if both ends lie between characters. -/
def slice? (t : Text) (start length : Nat) : Option Text :=
  (dropBytes? start t).bind (takeBytes? length)

@[simp] theorem byteLength_nil : byteLength [] = 0 := rfl

@[simp] theorem byteLength_cons (c : Char) (t : Text) :
    byteLength (c :: t) = c.utf8Size + byteLength t := rfl

@[simp] theorem byteLength_append (s t : Text) :
    byteLength (s ++ t) = byteLength s + byteLength t := by
  induction s with
  | nil => simp
  | cons c s ih => simp [ih, Nat.add_assoc]

theorem length_lt_of_dropWhile {p : Char → Bool} {t cs : Text} {c : Char}
    (h : t.dropWhile p = c :: cs) : cs.length < t.length := by
  have := (List.dropWhile_suffix (l := t) p).length_le
  rw [h, List.length_cons] at this
  omega

theorem dropBytes?_append (s t : Text) : dropBytes? (byteLength s) (s ++ t) = some t := by
  induction s with
  | nil => simp [dropBytes?]
  | cons c s ih =>
    obtain ⟨k, hk⟩ : ∃ k, c.utf8Size = k + 1 := ⟨c.utf8Size - 1, by have := c.utf8Size_pos; omega⟩
    rw [byteLength_cons, hk, Nat.add_right_comm, List.cons_append, dropBytes?,
      if_pos (by omega), hk, show k + byteLength s + 1 - (k + 1) = byteLength s by omega, ih]

theorem takeBytes?_append (s t : Text) : takeBytes? (byteLength s) (s ++ t) = some s := by
  induction s with
  | nil => simp [takeBytes?]
  | cons c s ih =>
    obtain ⟨k, hk⟩ : ∃ k, c.utf8Size = k + 1 := ⟨c.utf8Size - 1, by have := c.utf8Size_pos; omega⟩
    rw [byteLength_cons, hk, Nat.add_right_comm, List.cons_append, takeBytes?,
      if_pos (by omega), hk, show k + byteLength s + 1 - (k + 1) = byteLength s by omega, ih]
    rfl

theorem slice?_append (s t u : Text) :
    slice? (s ++ t ++ u) (byteLength s) (byteLength t) = some t := by
  rw [slice?, List.append_assoc, dropBytes?_append, Option.bind_some, takeBytes?_append]

end Text

end Stencil
