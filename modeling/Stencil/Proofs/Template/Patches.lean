import Stencil.Proofs.Template.Spelling

/-!
# Filling in by patches

Filling in a template replaces some pieces of its text by values and leaves the rest as it is
(`patched_expand`), as long as no fallback is taken. So a word that no value can hold a part of is
found in the result only where it stands in the text (`patched_char`, `patched_prefix`).
-/

namespace Stencil.Template

/-- Whether filling in a template takes a fallback. -/
def takesFallback (b : Bindings) : Template → Bool
  | .nil => false
  | .text _ rest => takesFallback b rest
  | .slot name rest => takesFallback b name || takesFallback b rest
  | .slotOr name _ rest =>
    takesFallback b name || (b.get? (Text.trim (name.expand b))).isNone || takesFallback b rest

/-- Whether a text becomes another when some of its pieces are replaced by texts with a property. -/
inductive Patched (P : Text → Prop) : Text → Text → Prop where
  | nil : Patched P [] []
  | keep (c : Char) {s t : Text} (h : Patched P s t) : Patched P (c :: s) (c :: t)
  | replace (u : Text) {v s t : Text} (hv : P v) (h : Patched P s t) :
      Patched P (u ++ s) (v ++ t)

variable {P : Text → Prop} {s t u v : Text}

theorem patched_keep (u : Text) (h : Patched P s t) : Patched P (u ++ s) (u ++ t) := by
  induction u with
  | nil => exact h
  | cons c u ih => exact .keep c ih

theorem patched_append (h : Patched P s t) (h' : Patched P u v) : Patched P (s ++ u) (t ++ v) := by
  induction h with
  | nil => exact h'
  | keep c _ ih => exact .keep c ih
  | replace w hv _ ih =>
    rw [List.append_assoc, List.append_assoc]
    exact .replace w hv ih

/-- **Filling in replaces pieces by values** unless it takes a fallback. -/
theorem patched_expand {b : Bindings} (hb : ∀ name v, b.get? name = some v → P v) {t : Template}
    (h : Spells s t) (ht : t.takesFallback b = false) : Patched P s (t.expand b) := by
  induction h with
  | nil => exact .nil
  | @text u s rest _ ih => exact patched_keep u (ih ht)
  | @slot n s name rest _ _ ihname ih =>
    simp only [takesFallback, Bool.or_eq_false_iff] at ht
    have hrest := ih ht.2
    simp only [expand]
    cases hvalue : b.get? (Text.trim (name.expand b)) with
    | some v => exact .replace _ (hb _ v hvalue) hrest
    | none =>
      have hname := patched_append (ihname ht.1) (patched_keep closing hrest)
      simpa using patched_keep opening hname
  | @slotOr n f d s name fallback rest _ _ _ _ _ _ ih =>
    simp only [takesFallback, Bool.or_eq_false_iff] at ht
    obtain ⟨⟨-, hbound⟩, hrest⟩ := ht
    simp only [expand]
    cases hvalue : b.get? (Text.trim (name.expand b)) with
    | some v => exact .replace _ (hb _ v hvalue) (ih hrest)
    | none => simp [hvalue] at hbound

/-! ## Words that no value holds a part of -/

theorem patched_prefix {q : Char} (hP : ∀ v, P v → v.head? = some q) {w : Text} (hw : q ∉ w)
    (h : Patched P s (w ++ t)) : ∃ r, s = w ++ r ∧ Patched P r t := by
  induction w generalizing s with
  | nil => exact ⟨s, rfl, h⟩
  | cons c w ih =>
    rw [List.mem_cons, not_or] at hw
    generalize hout : c :: w ++ t = out at h
    cases h with
    | nil => simp at hout
    | keep d h =>
      obtain ⟨rfl, rfl⟩ := List.cons.inj hout
      obtain ⟨r, rfl, hr⟩ := ih hw.2 h
      exact ⟨r, rfl, hr⟩
    | @replace u v s' t' hv h =>
      have hhead : (v ++ t').head? = some q := by simp [hP v hv]
      rw [← hout] at hhead
      simp only [List.cons_append, List.head?_cons, Option.some.injEq] at hhead
      exact absurd hhead.symm hw.1

theorem patched_char {c : Char} (hP : ∀ v, P v → c ∉ v) {before after : Text}
    (h : Patched P s (before ++ c :: after)) :
    ∃ front back, s = front ++ c :: back ∧ Patched P back after := by
  generalize hout : before ++ c :: after = out at h
  induction h generalizing before with
  | nil => simp at hout
  | @keep d s t h ih =>
    cases before with
    | nil =>
      obtain ⟨rfl, rfl⟩ := List.cons.inj hout
      exact ⟨[], s, rfl, h⟩
    | cons e before =>
      obtain ⟨front, back, rfl, hback⟩ := ih (List.cons.inj hout).2
      exact ⟨d :: front, back, rfl, hback⟩
  | @replace u v s t hv h ih =>
    rcases List.append_eq_append_iff.1 hout with ⟨rest, rfl, hrest⟩ | ⟨rest, rfl, hrest⟩
    · cases rest with
      | nil =>
        have hfirst : [] ++ c :: after = t := hrest
        obtain ⟨front, back, rfl, hback⟩ := ih hfirst
        exact ⟨u ++ front, back, by simp, hback⟩
      | cons d rest =>
        obtain ⟨rfl, -⟩ := List.cons.inj hrest
        exact absurd (by simp) (hP _ hv)
    · obtain ⟨front, back, rfl, hback⟩ := ih hrest.symm
      exact ⟨u ++ front, back, by simp, hback⟩

end Stencil.Template
