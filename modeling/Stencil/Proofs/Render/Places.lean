import Stencil.Render.Place

/-!
# What a place says

`Place.Inside` lists what is known of an element whose inside is a place, and `inside_spec` says
that it holds of the place that is found.
-/

namespace Stencil.Render.Place

variable {directive : Text} {e : Html.Element}

/-- An HTML element whose text is kept as it is laid out, or that holds escapable text only. -/
def Preformatted (e : Html.Element) : Prop := e.isHtml = true ∧ e.name ∈ preformattedNames

instance : DecidablePred Preformatted := fun e =>
  inferInstanceAs (Decidable (e.isHtml = true ∧ e.name ∈ preformattedNames))

/-- What is known of an element, by the place inside it. -/
inductive Inside (directive : Text) (e : Html.Element) : Place → Prop where
  | directive (hname : Ascii.sameName e.name directive = true) : Inside directive e .directive
  | script (hname : Ascii.sameName e.name directive = false)
      (he : e.isHtmlNamed "script".toList = true) : Inside directive e .script
  | style (hname : Ascii.sameName e.name directive = false)
      (he : e.isHtmlNamed "style".toList = true) : Inside directive e .style
  | preformatted (hname : Ascii.sameName e.name directive = false) (hhtml : e.isHtml = true)
      (he : e.name ∈ preformattedNames) : Inside directive e .preformatted
  | rawText (hname : Ascii.sameName e.name directive = false) (hraw : e.holdsRawText = true)
      (hstyle : e.isHtmlNamed "style".toList = false) : Inside directive e .rawText
  | ordinary (hname : Ascii.sameName e.name directive = false) (hraw : e.holdsRawText = false)
      (hpre : e.isHtml = true → e.name ∉ preformattedNames) : Inside directive e .ordinary

theorem not_isRawText_of_preformatted {name : Text} (h : name ∈ preformattedNames) :
    Html.isRawText name = false := by
  have hnames : ∀ n ∈ preformattedNames, Html.isRawText n = false := by decide
  exact hnames name h

theorem inside_spec (directive : Text) (e : Html.Element) :
    Inside directive e (.inside directive e) := by
  unfold inside
  cases hname : Ascii.sameName e.name directive with
  | true => exact .directive hname
  | false =>
    rw [if_neg Bool.false_ne_true]
    cases hhtml : e.isHtml with
    | false =>
      refine .ordinary hname ?_ fun h => absurd (hhtml.symm.trans h) Bool.false_ne_true
      rw [Html.Element.holdsRawText, hhtml, Bool.false_and]
    | true =>
      have hnamed (name : Text) : e.isHtmlNamed name = decide (e.name = name) := by
        rw [Html.Element.isHtmlNamed, hhtml, Bool.true_and]
      have hholds : e.holdsRawText = Html.isRawText e.name := by
        rw [Html.Element.holdsRawText, hhtml, Bool.true_and]
      rw [if_neg (by decide)]
      by_cases hscript : e.name = "script".toList
      · rw [if_pos hscript]
        exact .script hname ((hnamed _).trans (decide_eq_true hscript))
      rw [if_neg hscript]
      by_cases hstyle : e.name = "style".toList
      · rw [if_pos hstyle]
        exact .style hname ((hnamed _).trans (decide_eq_true hstyle))
      rw [if_neg hstyle]
      by_cases hpre : e.name ∈ preformattedNames
      · rw [if_pos hpre]
        exact .preformatted hname hhtml hpre
      rw [if_neg hpre]
      cases hraw : Html.isRawText e.name with
      | true =>
        exact .rawText hname (hholds.trans hraw) ((hnamed _).trans (decide_eq_false hstyle))
      | false => exact .ordinary hname (hholds.trans hraw) fun _ => hpre

theorem inside_eq_directive :
    inside directive e = .directive ↔ Ascii.sameName e.name directive = true := by
  have hspec := inside_spec directive e
  generalize inside directive e = place at hspec
  cases hspec with
  | directive hname => exact iff_of_true rfl hname
  | script hname | style hname | preformatted hname | rawText hname | ordinary hname =>
    exact iff_of_false Place.noConfusion (ne_true_of_eq_false hname)

theorem holdsRawText_of_isHtmlNamed {name : Text} (h : e.isHtmlNamed name = true) :
    e.holdsRawText = Html.isRawText name := by
  obtain ⟨hhtml, hname⟩ := Bool.and_eq_true_iff.1 h
  rw [Html.Element.holdsRawText, hhtml, of_decide_eq_true hname, Bool.true_and]

theorem inside_eq_script (h : Ascii.sameName e.name directive = false)
    (he : e.isHtmlNamed "script".toList = true) : inside directive e = .script := by
  obtain ⟨hhtml, hname⟩ := Bool.and_eq_true_iff.1 he
  unfold inside
  rw [h, hhtml, if_neg (by decide), if_neg (by decide), if_pos (of_decide_eq_true hname)]

theorem inside_eq_style (h : Ascii.sameName e.name directive = false) :
    inside directive e = .style ↔ e.isHtmlNamed "style".toList = true := by
  have hspec := inside_spec directive e
  generalize inside directive e = place at hspec
  cases hspec with
  | directive hname =>
    rw [hname] at h
    cases h
  | style _ he => exact iff_of_true rfl he
  | script _ he =>
    refine iff_of_false Place.noConfusion fun hstyle => ?_
    have hscript := of_decide_eq_true (Bool.and_eq_true_iff.1 he).2
    rw [of_decide_eq_true (Bool.and_eq_true_iff.1 hstyle).2] at hscript
    exact absurd hscript (by decide)
  | preformatted _ _ he =>
    refine iff_of_false Place.noConfusion fun hstyle => ?_
    rw [of_decide_eq_true (Bool.and_eq_true_iff.1 hstyle).2] at he
    exact absurd he (by decide)
  | rawText _ _ hstyle => exact iff_of_false Place.noConfusion (ne_true_of_eq_false hstyle)
  | ordinary _ hraw =>
    refine iff_of_false Place.noConfusion fun hstyle => ?_
    rw [holdsRawText_of_isHtmlNamed hstyle] at hraw
    exact absurd hraw (by decide)

theorem Preformatted.holdsRawText (he : Preformatted e) : e.holdsRawText = false := by
  rw [Html.Element.holdsRawText, not_isRawText_of_preformatted he.2, Bool.and_false]

theorem inside_eq_preformatted (h : Ascii.sameName e.name directive = false)
    (he : Preformatted e) : inside directive e = .preformatted := by
  have hnames : "script".toList ∉ preformattedNames ∧ "style".toList ∉ preformattedNames := by
    decide
  have hscript : e.name ≠ "script".toList := fun hname => hnames.1 (hname ▸ he.2)
  have hstyle : e.name ≠ "style".toList := fun hname => hnames.2 (hname ▸ he.2)
  unfold inside
  rw [h, he.1, if_neg (by decide), if_neg (by decide), if_neg hscript, if_neg hstyle, if_pos he.2]

/-- What is no element of text only is ordinary. -/
theorem inside_eq_ordinary (h : Ascii.sameName e.name directive = false)
    (he : ¬(e.holdsRawText = true ∨ Preformatted e)) : inside directive e = .ordinary := by
  have hspec := inside_spec directive e
  generalize inside directive e = place at hspec
  cases hspec with
  | directive hname =>
    rw [hname] at h
    cases h
  | script _ hscript => exact absurd (.inl (holdsRawText_of_isHtmlNamed hscript)) he
  | style _ hstyle => exact absurd (.inl (holdsRawText_of_isHtmlNamed hstyle)) he
  | preformatted _ hhtml hpre => exact absurd (.inr ⟨hhtml, hpre⟩) he
  | rawText _ hraw => exact absurd (.inl hraw) he
  | ordinary => rfl

end Stencil.Render.Place
