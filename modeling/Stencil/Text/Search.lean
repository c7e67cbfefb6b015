import Stencil.Text.Basic

/-!
# Search

Looking for one text in another: `cut?` splits at the first occurrence of a needle,
`replaceAll` replaces the occurrences found from left to right.
-/

namespace Stencil.Text

/-- What lies before and after the first occurrence of the needle. -/
def cut? (needle : Text) : Text → Option (Text × Text)
  | [] => if needle = [] then some ([], []) else none
  | c :: cs =>
    match needle.isPrefixOf? (c :: cs) with
    | some after => some ([], after)
    | none => (cut? needle cs).map fun (before, after) => (c :: before, after)

/-- Whether the needle occurs. -/
def occurs (needle t : Text) : Bool := (cut? needle t).isSome

theorem isPrefixOf?_cons (a b : Char) (s t : Text) :
    List.isPrefixOf? (a :: s) (b :: t) = if a == b then List.isPrefixOf? s t else none := rfl

theorem eq_append_of_isPrefixOf? {s t r : Text} (h : s.isPrefixOf? t = some r) : t = s ++ r := by
  induction s generalizing t with
  | nil => exact Option.some.inj h
  | cons a s ih =>
    cases t with
    | nil => cases h
    | cons b t =>
      rw [isPrefixOf?_cons] at h
      split at h
      · next hab => rw [ih h, eq_of_beq hab, List.cons_append]
      · cases h

theorem isPrefixOf?_append (s r : Text) : s.isPrefixOf? (s ++ r) = some r := by
  induction s with
  | nil => rfl
  | cons a s ih => rw [List.cons_append, isPrefixOf?_cons, if_pos BEq.rfl, ih]

theorem eq_of_cut? {needle t before after : Text} (h : cut? needle t = some (before, after)) :
    t = before ++ needle ++ after := by
  induction t generalizing before after with
  | nil =>
    simp only [cut?] at h
    split at h
    · next hn => simp_all
    · cases h
  | cons c cs ih =>
    simp only [cut?] at h
    split at h
    · next r hr =>
      cases h
      simpa using eq_append_of_isPrefixOf? hr
    · obtain ⟨⟨b, a⟩, hb, he⟩ := Option.map_eq_some_iff.1 h
      cases he
      simp [ih hb]

theorem length_of_cut? {needle t before after : Text} (h : cut? needle t = some (before, after)) :
    t.length = before.length + needle.length + after.length := by
  rw [eq_of_cut? h]
  simp only [List.length_append]

/-- The text with the occurrences of a non-empty needle, found from left to right, replaced. -/
def replaceAll (needle new : Text) (t : Text) : Text :=
  if hn : needle = [] then t
  else
    match h : cut? needle t with
    | none => t
    | some (before, after) =>
      have : after.length < t.length := by
        have := length_of_cut? h
        have := List.length_pos_iff.2 hn
        omega
      before ++ new ++ replaceAll needle new after
termination_by t.length

end Stencil.Text
