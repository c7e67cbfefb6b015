import Stencil.Proofs.Template.Spelling

/-!
# Templates written out

A template is read without loss but for what follows a second bar of a placeholder, which is dropped
with the bar. Written out it is what is left of its text (`source_sublist`), so if no bar is missing
it is the text itself (`source_parse`). Filled in where no name is bound, a template without
fallbacks is written out as well.
-/

namespace Stencil.Template

/-- Whether some placeholder of a template, in a name or outside one, has a fallback. -/
def hasFallback : Template → Bool
  | .nil => false
  | .text _ rest => hasFallback rest
  | .slot name rest => hasFallback name || hasFallback rest
  | .slotOr _ _ _ => true

variable {s : Text} {t : Template}

/-- A template written out is what is left of the text that spells it. -/
theorem source_sublist (h : Spells s t) : t.source.Sublist s := by
  induction h with
  | nil => exact List.nil_sublist []
  | text u _ ih => exact (List.Sublist.refl u).append ih
  | slot _ _ ihname ih =>
    have hname := ((List.Sublist.refl opening).append ihname).append (List.Sublist.refl closing)
    exact hname.append ih
  | @slotOr n f d s name fallback rest _ _ _ _ ihname ihfallback ih =>
    have hdropped : ('|' :: fallback.source).Sublist ('|' :: f ++ d) :=
      (ihfallback.cons_cons '|').trans (List.sublist_append_left _ _)
    have hparts := ((List.Sublist.refl opening).append ihname).append hdropped
    have hslot := (hparts.append (List.Sublist.refl closing)).append ih
    simpa [source] using hslot

theorem source_eq_of_count (h : Spells s t) (hbars : t.source.count '|' = s.count '|') :
    t.source = s := by
  induction h with
  | nil => rfl
  | @text u s rest _ ih =>
    simp only [source, List.count_append] at hbars ⊢
    rw [ih (by omega)]
  | @slot n s name rest hname hrest ihname ih =>
    have hn := (source_sublist hname).count_le '|'
    have hs := (source_sublist hrest).count_le '|'
    simp only [source, List.count_append] at hbars ⊢
    rw [ihname (by omega), ih (by omega)]
  | @slotOr n f d s name fallback rest hname hfallback hd hrest ihname ihfallback ih =>
    have hn := (source_sublist hname).count_le '|'
    have hf := (source_sublist hfallback).count_le '|'
    have hs := (source_sublist hrest).count_le '|'
    simp only [source, List.count_append, List.count_cons_self] at hbars ⊢
    have hnone : d.count '|' = 0 := by omega
    -- A part that is dropped would be short of at least its own bar.
    obtain rfl : d = [] := by
      rcases hd with rfl | ⟨u, rfl⟩
      · rfl
      · rw [List.count_cons_self] at hnone
        omega
    rw [ihname (by omega), ihfallback (by omega), ih (by omega), List.append_nil]

theorem expand_empty (h : t.hasFallback = false) : t.expand .empty = t.source := by
  induction t with
  | nil => rfl
  | text u rest ih => rw [expand, source, ih h]
  | slot name rest ihname ih =>
    rw [hasFallback, Bool.or_eq_false_iff] at h
    have hunbound (n : Text) : Bindings.empty.get? n = none := rfl
    simp only [expand, source, hunbound, Option.getD_none, ihname h.1, ih h.2]
  | slotOr => cases h

/-- **A template is read without loss but for surplus parts.** -/
theorem source_parse (s : Text) (hbars : (parse s).source.count '|' = s.count '|') :
    (parse s).source = s ∧ ((parse s).hasFallback = false → (parse s).expand .empty = s) := by
  have hsource := source_eq_of_count (spells_parse s) hbars
  exact ⟨hsource, fun h => (expand_empty h).trans hsource⟩

/-- Braces that are too many, a name with a placeholder in it, a bar that is text, placeholders that
are nested too deep, and one that is never closed. -/
def unboundText : Text :=
  ("\x7b\x7b\x7b\x7b a \x7b\x7b\x7bb\x7d\x7d\x7d\x7d\x7d\x7d\x7d | ".toList ++
    (List.replicate 42 opening).flatten ++ "c".toList ++ (List.replicate 42 closing).flatten ++
      "\x7b\x7b\x7bd|e\x7d\x7d".toList)

theorem source_parse_unboundText :
    (parse unboundText).source.count '|' = unboundText.count '|' ∧
    (parse unboundText).hasFallback = false ∧
    (parse unboundText).source = unboundText ∧ (parse unboundText).expand .empty = unboundText := by
  have hbars : (parse unboundText).source.count '|' = unboundText.count '|' := by decide +kernel
  have hfallback : (parse unboundText).hasFallback = false := by decide +kernel
  obtain ⟨hsource, hexpand⟩ := source_parse unboundText hbars
  exact ⟨hbars, hfallback, hsource, hexpand hfallback⟩

end Stencil.Template
