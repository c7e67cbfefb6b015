import Stencil.Proofs.Css.Values
import Stencil.Proofs.Render.Frames

/-!
# Values in the body of a style

The text of a style is filled in with values whose semicolons are guarded, and then its angle
brackets are escaped. Where no value has an angle bracket, no semicolon of a value ends a
declaration. An escaped bracket ends one, since a style is not decoded again:
`guarded_text` says that nothing else does.
-/

namespace Stencil.Render.Expander

open Css (Guarded trailingBackslashes)

variable (e : Expander Id)

/-- Filled in with values of a style, a text without semicolons and backslashes is a value. -/
theorem filled_style_eq {t : Text} (hsemicolon : ';' ∉ t) (hbackslash : '\\' ∉ t) :
    ∃ u, e.filled .style t = Css.escapeValue u := by
  apply e.filled_closed (P := fun w => ∃ u, w = Css.escapeValue u)
  · exact ⟨[], rfl⟩
  · rintro _ _ ⟨u, rfl⟩ ⟨v, rfl⟩
    exact ⟨u ++ v, List.flatMap_append.symm⟩
  · intro name v _
    exact ⟨_, rfl⟩
  · intro u hu
    refine ⟨u, (Css.escapeValue_of_not_mem ?_ ?_).symm⟩
    · intro h
      exact hsemicolon (hu.subset h)
    · intro h
      exact hbackslash (hu.subset h)

/-- Filled in with values of a style that have no character of a kind, a text has none. -/
theorem not_mem_filled_style {c : Char} (hc : c ≠ '\\')
    (hvalues : ∀ a ∈ e.bindings.entries, c ∉ Html.Reference.decode (e.stash.resolve a.2))
    {t : Text} (ht : c ∉ t) : c ∉ e.filled .style t := by
  apply e.filled_closed (P := fun u => c ∉ u)
  · exact List.not_mem_nil
  · intro u v hu hv h
    exact (List.mem_append.1 h).elim hu hv
  · intro name v hv
    have hvalue := hvalues (name, v) (Bindings.mem_of_get? hv)
    exact Css.not_mem_escapeValue hc hvalue
  · intro u hu h
    exact ht (hu.subset h)

variable (notice : Notice → Id Unit) {parent : Html.Element} {p : Progress Bindings} {t : Text}

/-- In the body of a style the text written is what is filled in, with its brackets escaped. -/
theorem text_style_eq (hparent : parent.isHtmlNamed "style".toList = true) (hp : e.Kept p) :
    (((e.renderer {} notice).text parent t).run p).1 = Html.escapeAngles (e.filled .style t) := by
  have hname : parent.name = "style".toList := of_decide_eq_true (Bool.and_eq_true_iff.1 hparent).2
  have hdirective : Ascii.sameName parent.name ({} : Settings).resourceDirective = false := by
    rw [hname]
    decide
  have hplace := (Place.inside_eq_style hdirective).2 hparent
  exact (e.settles_text_of_style notice hplace t p hp).1

/-- **In the body of a style a semicolon is guarded or ends an escaped bracket**, so all are guarded
just when no bracket is filled in, as when no value has one. -/
theorem guarded_text (hparent : parent.isHtmlNamed "style".toList = true) (hp : e.Kept p)
    (ht : ';' ∉ t ∧ '\\' ∉ t ∧ '<' ∉ t ∧ '>' ∉ t) :
    let written := (((e.renderer {} notice).text parent t).run p).1
    (∀ before after, written = before ++ ';' :: after → trailingBackslashes before % 2 = 1 ∨
      "&lt".toList <:+ before ∨ "&gt".toList <:+ before) ∧
    (Guarded written ↔ '<' ∉ e.filled .style t ∧ '>' ∉ e.filled .style t) ∧
    ((∀ a ∈ e.bindings.entries, '<' ∉ Html.Reference.decode (e.stash.resolve a.2) ∧
      '>' ∉ Html.Reference.decode (e.stash.resolve a.2)) → Guarded written) := by
  intro written
  obtain ⟨hsemicolon, hbackslash, hopen, hclose⟩ := ht
  have hwritten : written = Html.escapeAngles (e.filled .style t) :=
    e.text_style_eq notice hparent hp
  have hguarded : Guarded (e.filled .style t) := by
    obtain ⟨u, hu⟩ := e.filled_style_eq hsemicolon hbackslash
    rw [hu]
    exact Css.guarded_escapeValue u
  rw [hwritten]
  refine ⟨?_, Css.guarded_escapeAngles hguarded, ?_⟩
  · intro before after h
    exact Css.guarded_or_escape hguarded h
  · intro hvalues
    have hfree : '<' ∉ e.filled .style t ∧ '>' ∉ e.filled .style t :=
      ⟨e.not_mem_filled_style (by decide) (fun a ha => (hvalues a ha).1) hopen,
        e.not_mem_filled_style (by decide) (fun a ha => (hvalues a ha).2) hclose⟩
    exact (Css.guarded_escapeAngles hguarded).2 hfree

/-! ## In a rule -/

/-- A style of a rule. -/
def styleElement : Html.Element := { name := "style".toList }

/-- One argument, which would end its declaration where only semicolons are escaped. -/
def backslashed : Expander Id := .escaping (.positional ["red\\; background: url(//evil/x)".toList])

/-- A rule with a fallback and a name that are filled in. -/
def filledRule : Text :=
  (".a \x7b color: \x7b\x7b\x7bc|\x7b\x7b\x7b1\x7d\x7d\x7d\x7d\x7d\x7d, " ++
    "\x7b\x7b\x7bc\x7b\x7b\x7b1\x7d\x7d\x7d\x7d\x7d\x7d \x7d").toList

/-- What is written for `filledRule`. -/
def writtenRule : Text :=
  (((backslashed.renderer {} fun _ => pure ⟨⟩).text styleElement filledRule).run {}).1

theorem guarded_text_filledRule :
    styleElement.isHtmlNamed "style".toList = true ∧ backslashed.Kept {} ∧
    (';' ∉ filledRule ∧ '\\' ∉ filledRule ∧ '<' ∉ filledRule ∧ '>' ∉ filledRule) ∧
    (∀ a ∈ backslashed.bindings.entries,
      '<' ∉ Html.Reference.decode (backslashed.stash.resolve a.2) ∧
      '>' ∉ Html.Reference.decode (backslashed.stash.resolve a.2)) ∧
    Guarded writtenRule ∧
    writtenRule = (".a \x7b color: red\\\\\\; background: url(//evil/x), " ++
      "\x7b\x7b\x7bcred\\\\\\; background: url(//evil/x)\x7d\x7d\x7d \x7d").toList := by
  have hparent : styleElement.isHtmlNamed "style".toList = true := by decide
  have hkept : backslashed.Kept {} := backslashed.kept_empty
  have hrule : ';' ∉ filledRule ∧ '\\' ∉ filledRule ∧ '<' ∉ filledRule ∧ '>' ∉ filledRule := by
    decide
  have hvalues : ∀ a ∈ backslashed.bindings.entries,
      '<' ∉ Html.Reference.decode (backslashed.stash.resolve a.2) ∧
      '>' ∉ Html.Reference.decode (backslashed.stash.resolve a.2) := by decide +kernel
  have hguarded := backslashed.guarded_text (fun _ => pure ⟨⟩) hparent hkept hrule
  exact ⟨hparent, hkept, hrule, hvalues, hguarded.2.2 hvalues, by decide +kernel⟩

/-- A bracket in a value ends the declaration: it is escaped with a semicolon of its own. -/
theorem guarded_text_needs_unbracketed : ¬∀ (e : Expander Id) (notice : Notice → Id Unit)
    (parent : Html.Element) (p : Progress Bindings) (t : Text),
    parent.isHtmlNamed "style".toList = true → e.Kept p → ';' ∉ t ∧ '\\' ∉ t ∧ '<' ∉ t ∧ '>' ∉ t →
    Guarded (((e.renderer {} notice).text parent t).run p).1 := by
  intro h
  have hodd := h (.escaping (.positional ["red<background: url(//evil/x)".toList]))
    (fun _ => pure ⟨⟩) styleElement {} "color: \x7b\x7b\x7b1\x7d\x7d\x7d".toList (by decide)
    (kept_empty _) (by decide) "color: red&lt".toList "background: url(//evil/x)".toList
    (by decide +kernel)
  exact absurd hodd (by decide)

end Stencil.Render.Expander
