import Stencil.Proofs.Render.Content
import Stencil.Proofs.Render.Fidelity
import Stencil.Proofs.Render.Texts

/-!
# Texts without placeholders

Two opening braces are enough for a text to be expanded, and a placeholder starts with three. A text
that never has three is a template without placeholders, so it is filled in with itself
(`expand_of_not_opening`), and it is written as if it had not been expanded
(`settles_text_of_not_opening`). There is one exception: where a value could end an element of raw
text, angle brackets are escaped in the whole of what is filled in.
-/

namespace Stencil

namespace Template

theorem expand_of_not_opening {s : Text} {t : Template} (h : Spells s t) (hs : ¬opening <:+: s)
    (b : Bindings) : t.reachedNames b = [] ∧ t.expand b = s := by
  induction h with
  | nil => exact ⟨rfl, rfl⟩
  | @text u s rest _ ih =>
    have hrest : ¬opening <:+: s := by
      intro hinside
      exact hs (hinside.trans (List.suffix_append u s).isInfix)
    obtain ⟨hnames, hexpand⟩ := ih hrest
    exact ⟨hnames, congrArg (u ++ ·) hexpand⟩
  | @slot n s => exact absurd ⟨[], n ++ closing ++ s, by simp⟩ hs
  | @slotOr n f d s => exact absurd ⟨[], n ++ '|' :: f ++ d ++ closing ++ s, by simp⟩ hs

end Template

namespace Render.Expander

variable {t : Text} (ht : ¬Template.opening <:+: t)

include ht

theorem fill_of_not_opening (e : Expander Id) (form : Form) : e.fill form t = t := by
  exact (Template.expand_of_not_opening (Template.spells_parse t) ht (e.frame form)).2

theorem filled_of_not_opening (e : Expander Id) (form : Form) : e.filled form t = t := by
  unfold filled
  split
  · exact e.fill_of_not_opening ht form
  · rfl

theorem fill_markup_of_not_opening (b : Bindings) (stash : Stash) :
    (escaping b stash : Expander Id).fill .markup (Html.escapeText t) = Html.escapeText t := by
  obtain ⟨hnames, hexpand⟩ := Template.expand_of_not_opening (Template.spells_parse t) ht b
  rw [fill_markup_escapeText, hexpand]
  intro name hname
  rw [hnames] at hname
  cases hname

end Render.Expander

namespace Render

/-- What is written for a text without placeholders: what HTML writes, but angle brackets are
escaped in a style, and if there is a marker also in other raw text than that of a script. -/
def plainText (parent : Html.Element) (t : Text) : Text :=
  if parent.isHtmlNamed "style".toList then Html.escapeAngles t
  else if hasMarker t && parent.holdsRawText && !parent.isHtmlNamed "script".toList then
    Html.escapeAngles t
  else Html.textIn parent t

section Plain

variable {parent : Html.Element} {t : Text}

theorem not_holdsRawText_of_directive
    (h : Ascii.sameName parent.name ({} : Settings).resourceDirective = true) :
    parent.holdsRawText = false := by
  have hnames : ∀ name ∈ Html.rawTextNames,
      Ascii.sameName name ({} : Settings).resourceDirective = false := by decide
  rw [Bool.eq_false_iff]
  intro hraw
  have hname : parent.name ∈ Html.rawTextNames := by
    simpa [Html.isRawText] using (Bool.and_eq_true_iff.1 hraw).2
  rw [hnames _ hname] at h
  cases h

theorem not_isHtmlNamed_of_not_holdsRawText {name : Text} (hname : Html.isRawText name = true)
    (h : parent.holdsRawText = false) : parent.isHtmlNamed name = false := by
  rw [Bool.eq_false_iff]
  intro he
  rw [Place.holdsRawText_of_isHtmlNamed he, hname] at h
  cases h

theorem plainText_of_unmarked (h : hasMarker t = false) : plainText parent t =
    if parent.isHtmlNamed "style".toList then Html.escapeAngles t else Html.textIn parent t := by
  rw [plainText, h, Bool.false_and, Bool.false_and, if_neg Bool.false_ne_true]

theorem plainText_of_not_raw (hraw : parent.holdsRawText = false) :
    plainText parent t = Html.escapeText t := by
  have hstyle : parent.isHtmlNamed "style".toList = false :=
    not_isHtmlNamed_of_not_holdsRawText (by decide) hraw
  rw [plainText, hstyle, hraw, Bool.and_false, Bool.false_and, if_neg Bool.false_ne_true,
    if_neg Bool.false_ne_true, Html.textIn_of_not_raw hraw]

theorem plainText_of_script (he : parent.isHtmlNamed "script".toList = true) :
    plainText parent t = t := by
  have hname : parent.name = "script".toList := of_decide_eq_true (Bool.and_eq_true_iff.1 he).2
  have hstyle : parent.isHtmlNamed "style".toList = false := by
    simp [Html.Element.isHtmlNamed, hname]
  have hraw : parent.holdsRawText = true := Place.holdsRawText_of_isHtmlNamed he
  simp only [plainText, hstyle, he, Html.textIn_of_raw hraw, Bool.not_true, Bool.and_false,
    Bool.false_eq_true, if_false]

end Plain

namespace Expander

variable (b : Bindings) (stash : Stash) (notice : Notice → Id Unit)

theorem settles_text_of_unmarked (e : Expander Id) (parent : Html.Element) {t : Text}
    (hmarker : hasMarker t = false) :
    Settles e.Kept ((e.renderer {} notice).text parent t) (plainText parent t) := by
  have hignores : (e.renderer {} notice).ignores parent = false := by
    rw [Renderer.ignores, Bool.and_eq_false_iff]
    cases hname : Ascii.sameName parent.name ({} : Settings).resourceDirective with
    | false => exact .inl hname
    | true =>
      right
      exact not_isHtmlNamed_of_not_holdsRawText (by decide) (not_holdsRawText_of_directive hname)
  rw [Renderer.text_unmarked _ hmarker, Renderer.unmarkedText_of_not_ignores _ hignores,
    plainText_of_unmarked hmarker]
  exact settles_pure _

/-- **A text without placeholders is written as if it had not been expanded**, but for the angle
brackets that are escaped in elements of raw text. -/
theorem settles_text_of_not_opening (parent : Html.Element) {t : Text}
    (ht : ¬Template.opening <:+: t) :
    let e : Expander Id := .escaping b stash
    Settles e.Kept ((e.renderer {} notice).text parent t) (plainText parent t) := by
  intro e
  cases hmarker : hasMarker t with
  | false => exact settles_text_of_unmarked notice e parent hmarker
  | true =>
    have hspec := Place.inside_spec ({} : Settings).resourceDirective parent
    generalize hplace : Place.inside ({} : Settings).resourceDirective parent = place at hspec
    have hr : (e.renderer {} notice).place parent = place := hplace
    have hexpand := e.settles_expand {} notice .plain t
    rw [e.fill_of_not_opening ht] at hexpand
    -- The text is filled in with itself in every form, so only the escapes of the places differ.
    cases hspec with
    | directive hname =>
      have hraw := not_holdsRawText_of_directive hname
      rw [Renderer.text, settings_renderer, Acts.text_of_directive _ hplace,
        plainText_of_not_raw hraw, ← Html.textIn_of_not_raw hraw]
      exact settles_pure _
    | script _ he =>
      have hraw := Place.holdsRawText_of_isHtmlNamed he
      have hsettles := e.settles_text_of_script notice hplace hraw t
      rw [e.filled_of_not_opening ht] at hsettles
      rw [plainText_of_script he]
      exact hsettles
    | style _ he =>
      have hsettles := e.settles_text_of_style notice hplace t
      rw [e.filled_of_not_opening ht] at hsettles
      rw [plainText, if_pos he]
      exact hsettles
    | preformatted hname hhtml he =>
      have hparent : Place.Preformatted parent := ⟨hhtml, he⟩
      rw [plainText_of_not_raw hparent.holdsRawText,
        Renderer.text_of_preformatted hname hparent hmarker, ← bind_pure_comp]
      exact hexpand.bind (settles_pure _)
    | rawText hname hraw hstyle =>
      have hscript : parent.isHtmlNamed "script".toList = false := by
        rw [Bool.eq_false_iff]
        intro he
        rw [Place.inside_eq_script hname he] at hplace
        cases hplace
      have hplain : plainText parent t = Html.escapeAngles t := by
        rw [plainText, hstyle, hmarker, hraw, hscript, if_neg Bool.false_ne_true]
        rfl
      rw [hplain, Renderer.text_of_rawText hr hraw hmarker, ← bind_pure_comp]
      exact hexpand.bind (settles_pure _)
    | ordinary _ hraw =>
      rw [plainText_of_not_raw hraw, ← fill_markup_of_not_opening ht b stash]
      exact e.settles_text_of_ordinary notice hplace hmarker

/-! ### Braces without a placeholder -/

/-- Pairs of braces and bars between characters that are escaped. -/
def pairedText : Text := "\x7b\x7ba|\x7b\x7b b\x7d\x7d\x7d<&\u00A0>\x7d\x7d\x7d|\x7b\x7b".toList

/-- What is written for `pairedText` in an element of a name. -/
def writtenPaired (name : String) (ns : Html.Namespace) : Text :=
  let r := (escaping (.positional ["x".toList]) : Expander Id).renderer {} fun _ => pure ⟨⟩
  ((r.text { name := name.toList, ns } pairedText).run {}).1

theorem settles_text_of_not_opening_pairedText :
    ¬Template.opening <:+: pairedText ∧
    writtenPaired "div" .html = Html.escapeText pairedText ∧
    writtenPaired "textarea" .html = Html.escapeText pairedText ∧
    writtenPaired "mw:resourceloader" .html = Html.escapeText pairedText ∧
    writtenPaired "style" .svg = Html.escapeText pairedText ∧
    writtenPaired "script" .html = pairedText ∧
    writtenPaired "style" .html = Html.escapeAngles pairedText ∧
    writtenPaired "xmp" .html = Html.escapeAngles pairedText := by
  have ht : ¬Template.opening <:+: pairedText := by decide +kernel
  have hwritten (name : String) (ns : Html.Namespace) :
      writtenPaired name ns = plainText { name := name.toList, ns } pairedText :=
    (settles_text_of_not_opening _ {} _ _ ht {} (kept_empty _)).1
  simp only [hwritten]
  refine ⟨ht, ?_⟩
  decide +kernel

/-- In raw text of another kind than a script or a style, a text without placeholders is not written
as it is. -/
theorem plainText_needs_brackets :
    let xmp : Html.Element := { name := "xmp".toList }
    let r := (escaping .empty : Expander Id).renderer {} fun _ => pure ⟨⟩
    ¬Template.opening <:+: "\x7b\x7b<".toList ∧ xmp.isHtmlNamed "style".toList = false ∧
    ((r.text xmp "\x7b\x7b<".toList).run {}).1 = "\x7b\x7b&lt;".toList ∧
    Html.textIn xmp "\x7b\x7b<".toList = "\x7b\x7b<".toList := by
  decide +kernel

end Expander

end Render

end Stencil
