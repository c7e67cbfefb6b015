import Stencil.Css.Sanitize
import Stencil.Proofs.Text.Search

/-!
# Decoding a style again

A style that is let through is read once more by whoever applies it. Its comments are gone for
good, and it holds neither a control character nor a forbidden construct. But it is the decoded
text, so an escape or a reference can stand in it that did not stand in the value: a backslash that
was escaped, or an ampersand that a comment kept from its name. `sanitize_twice` says that nothing
else makes a style that was let through one that is refused.
-/

namespace Stencil.Css

/-! ## What is left to decode -/

/-- Whether an escape stands in a text. -/
def escapes : Text → Bool
  | [] => false
  | [_] => false
  | c :: d :: cs => c = '\\' || escapes (d :: cs)

/-- Whether a character reference stands in a text. -/
def refers : Text → Bool
  | [] => false
  | c :: cs => (c = '&' && (Html.Reference.read? cs).isSome) || refers cs

theorem unescape_of_not_escapes {t : Text} (h : escapes t = false) : unescape t = t := by
  fun_induction unescape t with
  | case1 => rfl
  | case2 => rfl
  | case3 c d cs _ ih =>
    simp only [escapes, Bool.or_eq_false_iff] at h
    rw [ih h.2]
  | case4 c d cs hc | case5 c d cs hc | case6 c d cs hc | case7 c d cs hc =>
    simp [escapes, Decidable.not_not.1 hc] at h

theorem decode_of_not_refers {t : Text} (h : refers t = false) : Html.Reference.decode t = t := by
  fun_induction Html.Reference.decode t with
  | case1 => rfl
  | case2 cs meaning rest hread => simp [refers, hread] at h
  | case3 cs hread ih =>
    simp only [refers, Bool.or_eq_false_iff] at h
    rw [ih h.2]
  | case4 c cs hc ih =>
    simp only [refers, Bool.or_eq_false_iff] at h
    rw [ih h.2]

/-! ## Comments -/

theorem dropComments_of_none {t : Text} (h : Text.cut? commentStart t = none) :
    dropComments t = t := by
  rw [dropComments]
  split
  · rfl
  · next hcut =>
    rw [h] at hcut
    cases hcut

theorem beforeComment_of_none {t : Text} (h : Text.cut? commentStart t = none) :
    beforeComment t = t := by
  rw [beforeComment, h]

theorem cut?_beforeComment (t : Text) : Text.cut? commentStart (beforeComment t) = none := by
  unfold beforeComment
  split
  · next hcut => exact Text.cut?_before (by decide) hcut
  · next hcut => exact hcut

theorem cut?_normalize (t : Text) : Text.cut? commentStart (normalize t) = none :=
  cut?_beforeComment _

/-- A normal form with nothing left to decode is its own normal form. -/
theorem normalize_normalize {t : Text} (hescapes : escapes (normalize t) = false)
    (hrefers : refers (normalize t) = false) : normalize (normalize t) = normalize t := by
  have hcut := cut?_normalize t
  generalize normalize t = style at hescapes hrefers hcut
  rw [normalize, decode_of_not_refers hrefers, unescape_of_not_escapes hescapes,
    dropComments_of_none hcut, beforeComment_of_none hcut]

/-! ## Sanitizing twice -/

theorem judge_normalize {style : Text} (hcontrol : style.any isControl = false)
    (hforbidden : isForbidden style = false) (hnormal : normalize style = style) :
    judge style = .accepted style := by
  simp [judge, hnormal, hcontrol, hforbidden]

/-- What is known of a style, by what is written for it. -/
theorem sanitize_cases (css : Text) :
    ((normalize css).any isControl = false ∧ isForbidden (normalize css) = false ∧
        sanitize css = normalize css) ∨
      sanitize css = Verdict.controlCharacterText ∨ sanitize css = Verdict.insecureText := by
  unfold sanitize judge
  dsimp only
  split
  · exact .inr (.inl rfl)
  · next hcontrol =>
    split
    · exact .inr (.inr rfl)
    · next hforbidden =>
      exact .inl ⟨by simpa using hcontrol, by simpa using hforbidden, rfl⟩

/-- A text without a comment is none of the texts that are written in the place of a style. -/
theorem ne_of_cut?_none {t : Text} (h : Text.cut? commentStart t = none) :
    t ≠ Verdict.insecureText ∧ t ≠ Verdict.controlCharacterText := by
  constructor
  · rintro rfl
    exact absurd h (by decide)
  · rintro rfl
    exact absurd h (by decide)

/-- **What is written for a style** holds no control character and no forbidden construct, and is
not refused when it is sanitized again, if neither an escape nor a reference is left in it. -/
theorem sanitize_twice (css : Text) :
    ((sanitize css).any isControl = false ∧ isForbidden (sanitize css) = false) ∧
      (escapes (sanitize css) = false → refers (sanitize css) = false →
        sanitize (sanitize css) ≠ Verdict.insecureText ∧
          sanitize (sanitize css) ≠ Verdict.controlCharacterText) := by
  rcases sanitize_cases css with ⟨hcontrol, hforbidden, heq⟩ | heq | heq
  · rw [heq]
    refine ⟨⟨hcontrol, hforbidden⟩, fun hescapes hrefers => ?_⟩
    have hjudge := judge_normalize hcontrol hforbidden (normalize_normalize hescapes hrefers)
    rw [sanitize, hjudge]
    exact ne_of_cut?_none (cut?_normalize css)
  · rw [heq]
    decide +kernel
  · rw [heq]
    decide +kernel

/-- A style that is spelled with escapes, a comment and a reference. -/
def obscuredStyle : Text := "\\63 olor: r/**/ed&semi;".toList

theorem sanitize_twice_obscuredStyle :
    escapes (sanitize obscuredStyle) = false ∧ refers (sanitize obscuredStyle) = false ∧
      sanitize (sanitize obscuredStyle) ≠ Verdict.insecureText ∧
      sanitize (sanitize obscuredStyle) ≠ Verdict.controlCharacterText := by
  have hescapes : escapes (sanitize obscuredStyle) = false := by decide +kernel
  have hrefers : refers (sanitize obscuredStyle) = false := by decide +kernel
  exact ⟨hescapes, hrefers, (sanitize_twice obscuredStyle).2 hescapes hrefers⟩

/-- An escaped backslash is let through as a backslash, and can escape what follows it. -/
theorem sanitize_twice_needs_escapes : ¬∀ css, refers (sanitize css) = false →
    sanitize (sanitize css) ≠ Verdict.insecureText ∧
      sanitize (sanitize css) ≠ Verdict.controlCharacterText := by
  intro h
  have hrefused := h "background: u\\\\72 l(//evil/x)".toList (by decide +kernel)
  exact absurd hrefused (by decide +kernel)

/-- A reference to an ampersand is let through as an ampersand, and can start another one. -/
theorem sanitize_twice_needs_refers : ¬∀ css, escapes (sanitize css) = false →
    sanitize (sanitize css) ≠ Verdict.insecureText ∧
      sanitize (sanitize css) ≠ Verdict.controlCharacterText := by
  intro h
  have hrefused := h "background: u&amp;#114;l(//evil/x)".toList (by decide +kernel)
  exact absurd hrefused (by decide +kernel)

end Stencil.Css
