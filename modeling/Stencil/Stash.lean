import Stencil.Text.Ascii
import Stencil.Text.Search

/-!
# Stash

A stash keeps pieces of text out of the way of a render. Each piece is stored under a number
and stands in the text as a marker, which `resolve` replaces by the piece. A piece may hold
markers of other pieces, and those are resolved in turn, up to a number of passes.
-/

namespace Stencil

/-- Stored pieces of text; the number of a piece is its place. -/
structure Stash where
  items : List Text := []
  deriving DecidableEq, Repr, Inhabited

namespace Stash

/-- What a marker starts with. -/
def head : Text := "\x7f'\"`UNIQ--item-".toList

/-- What a marker ends with. -/
def tail : Text := "-QINU`\"'\x7f".toList

theorem head_length_pos : 0 < head.length := by decide

theorem tail_length_pos : 0 < tail.length := by decide

/-- How many times a text is searched for markers. -/
def maxPasses : Nat := 16

/-- A number in capital hexadecimal digits, at least eight of them. -/
def number (n : Nat) : Text :=
  let digits := (Nat.toDigits 16 n).map Char.toUpper
  List.replicate (8 - digits.length) '0' ++ digits

/-- The number that digits of either case write, after a plus sign or none. -/
def number? (t : Text) : Option Nat :=
  let digits := match t with
    | '+' :: ds => ds
    | ds => ds
  if digits ≠ [] ∧ digits.all Ascii.isHexDigit then some (Ascii.ofHex digits) else none

/-- The marker of a number. -/
def marker (n : Nat) : Text := head ++ number n ++ tail

/-- Stores a piece, and gives its marker. -/
def insert (s : Stash) (item : Text) : Stash × Text :=
  ({ items := s.items ++ [item] }, marker s.items.length)

/-- Reads the rest of a marker after its start: the piece it stands for, and the text after it. -/
def read? (s : Stash) (t : Text) : Option (Text × Text) := do
  let (digits, after) ← Text.cut? tail t
  let n ← number? digits
  let item ← s.items[n]?
  return (item, after)

theorem length_of_read? {s : Stash} {t item after : Text} (h : s.read? t = some (item, after)) :
    after.length < t.length := by
  simp only [read?, Option.bind_eq_bind, Option.bind_eq_some_iff] at h
  obtain ⟨⟨digits, rest⟩, hc, _, _, _, _, he⟩ := h
  cases he
  have := Text.length_of_cut? hc
  have := tail_length_pos
  dsimp only
  omega

theorem length_lt_of_head {t u : Text} (h : head.isPrefixOf? t = some u) : u.length < t.length := by
  rw [Text.eq_append_of_isPrefixOf? h, List.length_append]
  have := head_length_pos
  omega

/-- Replaces the markers of stored pieces, from left to right, without looking into the pieces. -/
def resolveOnce (s : Stash) : Text → Text
  | [] => []
  | c :: cs =>
    match hp : head.isPrefixOf? (c :: cs) with
    | none => c :: resolveOnce s cs
    | some t =>
      have := length_lt_of_head hp
      match h : s.read? t with
      | some (item, after) =>
        have := Nat.lt_trans (length_of_read? h) this
        item ++ resolveOnce s after
      | none => head ++ resolveOnce s t
termination_by t => t.length
decreasing_by
  · exact Nat.lt_succ_self _
  · exact this
  · exact this

/-- Replaces markers until nothing changes, at most `n` times. -/
def resolveWithin (s : Stash) : Nat → Text → Text
  | 0, t => t
  | n + 1, t =>
    let u := s.resolveOnce t
    if u = t then t else resolveWithin s n u

/-- The text with every marker of a stored piece replaced by it. -/
def resolve (s : Stash) (t : Text) : Text := s.resolveWithin maxPasses t

end Stash

end Stencil
