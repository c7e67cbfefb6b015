import Stencil.Text.Basic

/-!
# Texts written form by form

An escape writes every character of a text in a form of its own. What stands in the result stands in
the form of one character, after the forms of those before it (`eq_append_of_flatMap`), and a reader
that reads every form back reads the text back (`read_flatMap_append`).
-/

namespace Stencil.Text

/-- What copies every character but one copies a text without it, whatever follows. -/
theorem copy_append {f : Text → Text} {x : Char}
    (hf : ∀ c, c ≠ x → ∀ rest, f (c :: rest) = c :: f rest) {t : Text} (ht : x ∉ t) (rest : Text) :
    f (t ++ rest) = t ++ f rest := by
  induction t with
  | nil => rfl
  | cons c t ih =>
    rw [List.mem_cons, not_or] at ht
    rw [List.cons_append, hf c (Ne.symm ht.1), ih ht.2, List.cons_append]

theorem flatMap_eq_self {f : Char → Text} {t : Text} (h : ∀ c ∈ t, f c = [c]) :
    t.flatMap f = t := by
  induction t with
  | nil => rfl
  | cons c t ih =>
    obtain ⟨hc, ht⟩ := List.forall_mem_cons.1 h
    rw [List.flatMap_cons, hc, ih ht, List.singleton_append]

/-- A character of a text that is written form by form stands in the form of one character. -/
theorem eq_append_of_flatMap {f : Char → Text} {t before after : Text} {x : Char}
    (h : t.flatMap f = before ++ x :: after) :
    ∃ u c v front back, t = u ++ c :: v ∧ f c = front ++ x :: back ∧
      before = u.flatMap f ++ front := by
  induction t generalizing before with
  | nil => simp at h
  | cons c t ih =>
    rw [List.flatMap_cons] at h
    rcases List.append_eq_append_iff.1 h with ⟨rest, rfl, hrest⟩ | ⟨back, hform, hback⟩
    · obtain ⟨u, d, v, front, back, rfl, hform, rfl⟩ := ih hrest
      exact ⟨c :: u, d, v, front, back, rfl, hform, by simp⟩
    · cases back with
      | nil =>
        have hrest : t.flatMap f = [] ++ x :: after := hback.symm
        obtain ⟨u, d, v, front, back, rfl, hd, hu⟩ := ih hrest
        refine ⟨c :: u, d, v, front, back, rfl, hd, ?_⟩
        rw [List.append_nil] at hform
        simp [hform, ← hu]
      | cons y back =>
        obtain ⟨rfl, -⟩ := List.cons.inj hback
        exact ⟨[], c, t, before, back, rfl, hform, rfl⟩

/-- What reads every form of a character back reads the text back, in front of whatever follows. -/
theorem read_flatMap_append {f : Char → Text} {read : Text → Text}
    (h : ∀ c rest, read (f c ++ rest) = c :: read rest) (t rest : Text) :
    read (t.flatMap f ++ rest) = t ++ read rest := by
  induction t with
  | nil => rfl
  | cons c t ih => rw [List.flatMap_cons, List.append_assoc, h, ih, List.cons_append]

/-- In a text that ends with the one character of its kind, what stands in front of that character
is the rest. -/
theorem eq_of_concat_eq_append {u before after : Text} {x : Char} (hx : x ∉ u)
    (h : u ++ [x] = before ++ x :: after) : before = u := by
  rcases List.append_eq_append_iff.1 h with ⟨rest, rfl, hrest⟩ | ⟨rest, rfl, hrest⟩
  · cases rest with
    | nil => rw [List.append_nil]
    | cons y rest => simp at hrest
  · cases rest with
    | nil => rw [List.append_nil]
    | cons y rest =>
      rw [← (List.cons.inj hrest).1] at hx
      simp at hx

end Stencil.Text
