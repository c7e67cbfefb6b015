import Stencil.Proofs.Html.Escape
import Stencil.Proofs.Render.Filling
import Stencil.Proofs.Stash.Markers
import Stencil.Proofs.Template.Writing

/-!
# Ordinary content

In ordinary content a text is escaped first, and then its placeholders are filled in with escaped
values. If every name that is looked up is written as it is, this gives what escaping gives after
the placeholders are filled in (`settles_text_escapeText`). Any other name is looked up as it is
written, so it can be another name than the same placeholder looks up in an attribute
(`settles_placeholder`).
-/

namespace Stencil

namespace Html

/-- Whether a text is written as it is. -/
def Verbatim (t : Text) : Prop := '&' ∉ t ∧ '<' ∉ t ∧ '>' ∉ t ∧ '\u00A0' ∉ t

instance : DecidablePred Verbatim := fun t =>
  inferInstanceAs (Decidable ('&' ∉ t ∧ '<' ∉ t ∧ '>' ∉ t ∧ '\u00A0' ∉ t))

theorem escapeText_of_verbatim {t : Text} (h : Verbatim t) : escapeText t = t := by
  obtain ⟨hamp, hless, hgreater, hspace⟩ := h
  apply Text.flatMap_eq_self
  intro c hc
  have hne {d : Char} (hd : d ∉ t) : c ≠ d := fun heq => hd (heq ▸ hc)
  unfold textForm
  split
  · exact absurd rfl (hne hamp)
  · exact absurd rfl (hne hless)
  · exact absurd rfl (hne hgreater)
  · exact absurd rfl (hne hspace)
  · rfl

theorem escapeText_inj {t u : Text} : escapeText t = escapeText u ↔ t = u := by
  refine ⟨fun h => ?_, fun h => h ▸ rfl⟩
  rw [← Reference.decode_escapeText t, h, Reference.decode_escapeText]

/-- Escaping leaves the signs of a template alone, and brings none in. -/
theorem keepsSigns_textForm : Template.KeepsSigns textForm where
  sign c hc := by
    rcases Template.isSign_iff.1 hc with rfl | rfl | rfl
    · rfl
    · rfl
    · rfl
  other c hc := by
    unfold textForm
    split
    · decide
    · decide
    · decide
    · decide
    · intro d hd
      rw [List.mem_singleton.1 hd]
      exact hc
  ne_nil := textForm_ne_nil

end Html

open Html (escapeText)

namespace Render.Expander

variable {s : Settings} (notice : Notice → Id Unit) {parent : Html.Element}

/-! ## Escaping before and after -/

section Escaping

variable (b : Bindings) (stash : Stash)

theorem get?_frame_markup (name : Text) :
    ((escaping b stash : Expander Id).frame .markup).get? name = (b.get? name).map escapeText :=
  get?_frame _ .markup name

theorem fill_markup_escapeText {t : Text}
    (hnames : ∀ name ∈ (Template.parse t).reachedNames b, Html.Verbatim name) :
    (escaping b stash : Expander Id).fill .markup (escapeText t) =
      escapeText ((Template.parse t).expand b) := by
  have hparse : Template.parse (escapeText t) = (Template.parse t).written Html.textForm :=
    Template.parse_flatMap Html.keepsSigns_textForm t
  rw [fill, hparse]
  apply Template.expand_written Html.keepsSigns_textForm (get?_frame_markup b stash)
  intro name hname
  exact Html.escapeText_of_verbatim (hnames name hname)

/-- **In ordinary content a text is written as if it were escaped last**, if every name that is
looked up is written as it is. -/
theorem settles_text_escapeText (hplace : Place.inside s.resourceDirective parent = .ordinary)
    {t : Text} (ht : hasMarker t = true)
    (hnames : ∀ name ∈ (Template.parse t).reachedNames b, Html.Verbatim name) :
    let e : Expander Id := .escaping b stash
    Settles e.Kept ((e.renderer s notice).text parent t)
      (escapeText ((Template.parse t).expand b)) := by
  intro e
  rw [← fill_markup_escapeText b stash hnames]
  exact e.settles_text_of_ordinary notice hplace ht

/-- Markup and marks around placeholders, with a computed name, a fallback that is taken and one
that is not. -/
def contentText : Text :=
  ("&<b>|{{{ {{{k}}} }}}{{{{0|<{{{2|>}}}>}}}}" ++
    "{{{k|{{{a&b}}}}}}{{{2}}}\u00A0\x7b\x7b\x7bk").toList

def contentArguments : Bindings :=
  .ofList [("k".toList, "1".toList), ("1".toList, "</b>&amp;\u00A0{{{k}}}".toList)]

theorem settles_text_escapeText_contentText :
    let div : Html.Element := { name := "div".toList }
    let e : Expander Id := .escaping contentArguments
    let text := (e.renderer {} fun _ => pure ⟨⟩).text div contentText
    Place.inside ({} : Settings).resourceDirective div = .ordinary ∧ hasMarker contentText = true ∧
    (∀ name ∈ (Template.parse contentText).reachedNames contentArguments, Html.Verbatim name) ∧
    (text.run {}).1 = escapeText ("&<b>|</b>&amp;\u00A0{{{k}}}{<>>}" ++
      "1{{{2}}}\u00A0\x7b\x7b\x7bk").toList := by
  intro div e text
  have hplace : Place.inside ({} : Settings).resourceDirective div = .ordinary := by decide
  have hmarker : hasMarker contentText = true := by decide +kernel
  have hnames : ∀ name ∈ (Template.parse contentText).reachedNames contentArguments,
      Html.Verbatim name := by decide +kernel
  have hsettles :=
    settles_text_escapeText (fun _ => pure ⟨⟩) contentArguments {} hplace hmarker hnames
  refine ⟨hplace, hmarker, hnames, (hsettles {} e.kept_empty).1.trans ?_⟩
  decide +kernel

end Escaping

/-! ## One placeholder -/

section Placeholder

open Template (placeholder)

variable (b : Bindings) {name v : Text}

theorem hasMarker_placeholder (name : Text) : hasMarker (placeholder name) = true := rfl

theorem escapeText_placeholder (name : Text) :
    escapeText (placeholder name) = placeholder (escapeText name) := by
  have hopening : escapeText Template.opening = Template.opening := by decide
  have hclosing : escapeText Template.closing = Template.closing := by decide
  unfold placeholder
  rw [Html.escapeText_append, Html.escapeText_append, hopening, hclosing]

/-- In ordinary content a placeholder is filled in with the value of the name as it is written. -/
theorem fill_markup_placeholder (hname : Template.Signless name) :
    (escaping b : Expander Id).fill .markup (escapeText (placeholder name)) =
      escapeText ((b.get? (Text.trim (escapeText name))).getD (placeholder name)) := by
  have hsigns : Template.Signless (escapeText name) := by
    intro d hd
    obtain ⟨c, hc, hd⟩ := List.mem_flatMap.1 hd
    exact Html.keepsSigns_textForm.other c (hname c hc) d hd
  -- The braces are written as they are, so the name that is looked up is the escaped one.
  rw [escapeText_placeholder, fill, Template.expand_placeholder _ hsigns, get?_frame_markup,
    ← escapeText_placeholder]
  cases b.get? (Text.trim (escapeText name)) with
  | some v => rfl
  | none => rfl

/-- In an attribute it is filled in with the value of the name. -/
theorem filledValue_placeholder (hname : Template.Signless name)
    (hvalue : b.get? (Text.trim name) = some v) :
    filledValue s b "title".toList (placeholder name) = Html.Reference.decode v := by
  have hform : ((escaping b : Expander Id).frame .plain).get? (Text.trim name) =
      some (Html.Reference.decode v) := by
    rw [get?_frame, show (escaping b : Expander Id).bindings = b from rfl, hvalue, Option.map_some]
    exact congrArg some (congrArg Html.Reference.decode (Stash.resolve_empty v))
  have hfill : (escaping b : Expander Id).fill .plain (placeholder name) =
      Html.Reference.decode v := by
    rw [fill, Template.expand_placeholder _ hname, hform]
    rfl
  have hfilled : (fillingActs b).fillAttribute "title".toList (placeholder name) =
      pure (Html.Reference.decode v) := by
    unfold Acts.fillAttribute
    rw [hasMarker_placeholder, if_neg (by decide)]
    exact congrArg pure hfill
  rw [filledValue, Acts.attributeValue, hfilled, pure_bind, if_neg (by decide)]
  rfl

/-- **A placeholder gives the value of its name in an attribute, and in ordinary content that of the
name as it is written.** Both are the same if the name is written as it is, and otherwise only if
the name as it is written gives that value too. -/
theorem settles_placeholder (hname : Template.Signless name)
    (hvalue : b.get? (Text.trim name) = some v)
    (hplace : Place.inside s.resourceDirective parent = .ordinary) :
    let e : Expander Id := .escaping b
    let r := e.renderer s notice
    let written := (b.get? (Text.trim (escapeText name))).getD (placeholder name)
    Settles e.Kept (r.attributeValue "title".toList (placeholder name))
      (Html.Reference.decode v) ∧
    Settles e.Kept (r.text parent (placeholder name)) (escapeText written) ∧
    (Settles e.Kept (r.text parent (placeholder name)) (escapeText v) ↔ written = v) ∧
    (Html.Verbatim name → Settles e.Kept (r.text parent (placeholder name)) (escapeText v)) := by
  intro e r written
  have hattribute : Settles e.Kept (r.attributeValue "title".toList (placeholder name))
      (Html.Reference.decode v) := by
    rw [← filledValue_placeholder (s := s) b hname hvalue]
    exact (related_fillingActs s b notice).attributeValue s "title".toList (placeholder name)
  have htext : Settles e.Kept (r.text parent (placeholder name)) (escapeText written) := by
    rw [← fill_markup_placeholder b hname]
    exact e.settles_text_of_ordinary notice hplace (hasMarker_placeholder name)
  have hsame : Settles e.Kept (r.text parent (placeholder name)) (escapeText v) ↔
      written = v := by
    constructor
    · intro h
      apply Html.escapeText_inj.1
      exact (htext {} e.kept_empty).1.symm.trans (h {} e.kept_empty).1
    · intro h
      exact h ▸ htext
  refine ⟨hattribute, htext, hsame, ?_⟩
  intro hverbatim
  apply hsame.2
  change (b.get? (Text.trim (escapeText name))).getD (placeholder name) = v
  rw [Html.escapeText_of_verbatim hverbatim, hvalue]
  rfl

/-- A name with space around it, and a value with markup and a reference. -/
theorem settles_placeholder_spaced :
    let div : Html.Element := { name := "div".toList }
    let name := " \t1\n".toList
    let b : Bindings := .positional ["<&amp;\u00A0".toList]
    let r := (escaping b : Expander Id).renderer {} fun _ => pure ⟨⟩
    (Template.Signless name ∧
      b.get? (Text.trim name) = some "<&amp;\u00A0".toList ∧
      Place.inside ({} : Settings).resourceDirective div = .ordinary) ∧
    ((r.attributeValue "title".toList (placeholder name)).run {}).1 = "<&\u00A0".toList ∧
    ((r.text div (placeholder name)).run {}).1 = "&lt;&amp;amp;&nbsp;".toList := by
  intro div name b r
  have hname : Template.Signless name := by decide
  have hvalue : b.get? (Text.trim name) = some "<&amp;\u00A0".toList := by decide +kernel
  have hplace : Place.inside ({} : Settings).resourceDirective div = .ordinary := by decide
  have hsettles := settles_placeholder (fun _ => pure ⟨⟩) b hname hvalue hplace
  have hkept := (escaping b : Expander Id).kept_empty
  refine ⟨⟨hname, hvalue, hplace⟩, ?_, ?_⟩
  · refine (hsettles.1 {} hkept).1.trans ?_
    decide +kernel
  · refine (hsettles.2.2.2 (by decide) {} hkept).1.trans ?_
    decide +kernel

/-- A name that is written in another way is not found, and another one is if it is bound. Space
around it that is written as a reference is not left out. -/
theorem settles_placeholder_needs_verbatim :
    let div : Html.Element := { name := "div".toList }
    let values (b : Bindings) (name : Text) :=
      let r := (escaping b : Expander Id).renderer {} fun _ => pure ⟨⟩
      (((r.attributeValue "title".toList (placeholder name)).run {}).1,
        ((r.text div (placeholder name)).run {}).1)
    Template.Signless "a&b".toList ∧ Template.Signless "\u00A0a".toList ∧
    (Bindings.ofList [("a&b".toList, "v".toList)]).get? (Text.trim "a&b".toList) =
      some "v".toList ∧
    (Bindings.ofList [("a".toList, "v".toList)]).get? (Text.trim "\u00A0a".toList) =
      some "v".toList ∧
    Place.inside ({} : Settings).resourceDirective div = .ordinary ∧
    values (.ofList [("a&b".toList, "v".toList)]) "a&b".toList =
      ("v".toList, "{{{a&amp;b}}}".toList) ∧
    values (.ofList [("a&b".toList, "v".toList), ("a&amp;b".toList, "w".toList)]) "a&b".toList =
      ("v".toList, "w".toList) ∧
    values (.ofList [("a".toList, "v".toList)]) "\u00A0a".toList =
      ("v".toList, "{{{&nbsp;a}}}".toList) := by
  decide +kernel

end Placeholder

end Render.Expander

end Stencil
