import Stencil.Proofs.Render.Frames

/-!
# Values in texts

A text with a marker is written without angle brackets, so no value in it is read as markup
(`unbracketed_text`). In an element that holds text only, this is so whatever a service answers,
since its answer is escaped, and only once where it is decoded again. In ordinary content the answer
is written as it is: there it is so for fixed arguments whose processor escapes.
-/

namespace Stencil

namespace Html

/-- Without angle brackets. -/
def Unbracketed (t : Text) : Prop := '<' ∉ t ∧ '>' ∉ t

theorem unbracketed_nil : Unbracketed [] := ⟨List.not_mem_nil, List.not_mem_nil⟩

theorem Unbracketed.append {t u : Text} (ht : Unbracketed t) (hu : Unbracketed u) :
    Unbracketed (t ++ u) :=
  ⟨fun h => (List.mem_append.1 h).elim ht.1 hu.1, fun h => (List.mem_append.1 h).elim ht.2 hu.2⟩

theorem Unbracketed.subset {t u : Text} (ht : Unbracketed t) (hu : u ⊆ t) : Unbracketed u :=
  ⟨fun h => ht.1 (hu h), fun h => ht.2 (hu h)⟩

theorem unbracketed_escapeText (t : Text) : Unbracketed (escapeText t) :=
  ⟨not_mem_escapeText (.inl rfl) t, not_mem_escapeText (.inr (.inl rfl)) t⟩

theorem unbracketed_escapeAngles (t : Text) : Unbracketed (escapeAngles t) :=
  ⟨not_mem_escapeAngles (.inl rfl) t, not_mem_escapeAngles (.inr rfl) t⟩

end Html

open Html (Unbracketed)

namespace Render

/-! ### In elements that hold text only -/

namespace Renderer

variable {m : Type → Type} [Monad m] [LawfulMonad m] {Tree Frame : Type}
  {r : Renderer m Tree Frame} {parent : Html.Element} {t : Text}

theorem text_of_style (h : r.place parent = .style) (ht : hasMarker t = true) :
    r.text parent t = Html.escapeAngles <$> r.expand .style t := by
  rw [← bind_pure_comp]
  exact r.acts.text_of_style h ht

theorem text_of_rawText (h : r.place parent = .rawText) (hraw : parent.holdsRawText = true)
    (ht : hasMarker t = true) : r.text parent t = Html.escapeAngles <$> r.expand .plain t := by
  rw [← bind_pure_comp]
  exact r.acts.text_of_rawText h hraw ht

theorem text_of_preformatted
    (hdirective : Ascii.sameName parent.name r.settings.resourceDirective = false)
    (hparent : Place.Preformatted parent) (ht : hasMarker t = true) :
    r.text parent t = Html.escapeText <$> r.expand .plain t := by
  rw [← bind_pure_comp]
  exact r.acts.text_of_preformatted (Place.inside_eq_preformatted hdirective hparent)
    hparent.holdsRawText ht

/-- Elements that hold text only are written without brackets, whatever a service answers. -/
theorem gives_text (hdirective : Ascii.sameName parent.name r.settings.resourceDirective = false)
    (hscript : parent.isHtmlNamed "script".toList = false)
    (hparent : parent.holdsRawText = true ∨ Place.Preformatted parent) (ht : hasMarker t = true) :
    Gives Unbracketed (r.text parent t) := by
  have hspec := Place.inside_spec r.settings.resourceDirective parent
  generalize hplace : Place.inside r.settings.resourceDirective parent = place at hspec
  cases hspec with
  | directive hname =>
    rw [hname] at hdirective
    cases hdirective
  | script _ he =>
    rw [he] at hscript
    cases hscript
  | style =>
    rw [text_of_style hplace ht]
    exact gives_map Html.unbracketed_escapeAngles _
  | rawText _ hraw =>
    rw [text_of_rawText hplace hraw ht]
    exact gives_map Html.unbracketed_escapeAngles _
  | preformatted _ hhtml he =>
    rw [text_of_preformatted hdirective ⟨hhtml, he⟩ ht]
    exact gives_map Html.unbracketed_escapeText _
  | ordinary _ hraw hpre =>
    rcases hparent with h | ⟨hhtml, he⟩
    · rw [hraw] at h
      cases h
    · exact absurd he (hpre hhtml)

/-- Where the text is decoded again, it is decoded to what the service answered. -/
theorem decode_text (hdirective : Ascii.sameName parent.name r.settings.resourceDirective = false)
    (hparent : Place.Preformatted parent) (ht : hasMarker t = true) :
    Html.Reference.decode <$> r.text parent t = r.expand .plain t := by
  rw [text_of_preformatted hdirective hparent ht, Functor.map_map]
  simp only [Html.Reference.decode_escapeText, id_map']

end Renderer

/-! ### In ordinary content -/

namespace Expander

theorem unbracketed_fill_markup (b : Bindings) (stash : Stash) (t : Text) :
    Unbracketed ((escaping b stash : Expander Id).fill .markup (Html.escapeText t)) := by
  refine fill_closed _ Html.unbracketed_nil Html.Unbracketed.append ?_ ?_
  · intro name v _
    exact Html.unbracketed_escapeText v
  · intro u hu
    exact (Html.unbracketed_escapeText t).subset hu.subset

end Expander

/-! ### In any element but a script -/

/-- **A text with a marker is written without angle brackets**: in an element that holds text only
whatever a service answers, and in ordinary content with fixed arguments whose processor escapes. A
text that is decoded again is decoded to what the service answered. -/
theorem Renderer.unbracketed_text {m : Type → Type} [Monad m] [LawfulMonad m] {Tree Frame : Type}
    (r : Renderer m Tree Frame) {parent : Html.Element} {t : Text} (ht : hasMarker t = true)
    (hdirective : Ascii.sameName parent.name r.settings.resourceDirective = false)
    (hscript : parent.isHtmlNamed "script".toList = false) :
    (parent.holdsRawText = true ∨ Place.Preformatted parent →
      Gives Unbracketed (r.text parent t)) ∧
    (¬(parent.holdsRawText = true ∨ Place.Preformatted parent) →
      ∀ (b : Bindings) (stash : Stash) (notice : Notice → Id Unit) (p : Progress Bindings),
        let e : Expander Id := .escaping b stash
        e.Kept p → Unbracketed (((e.renderer r.settings notice).text parent t).run p).1) ∧
    (Place.Preformatted parent →
      Html.Reference.decode <$> r.text parent t = r.expand .plain t) := by
  refine ⟨?_, ?_, ?_⟩
  · intro hparent
    exact Renderer.gives_text hdirective hscript hparent ht
  · intro hparent b stash notice p e hp
    have hplace := Place.inside_eq_ordinary hdirective hparent
    rw [(e.settles_text_of_ordinary notice hplace ht p hp).1]
    exact Expander.unbracketed_fill_markup b stash t
  · intro hparent
    exact Renderer.decode_text hdirective hparent ht

/-! ## In a text area and in a division -/

/-- Arguments with markup in them and in what is stored, and a processor that lets it through. -/
def trusting : Expander Id where
  bindings := .positional ["</textarea>&lt;".toList ++ Stash.marker 0]
  stash := { items := ["<i>".toList] }
  reprocess t := pure t

/-- A text with markup around placeholders, in a name that is echoed, and in a fallback. -/
def bracketedText : Text :=
  ("<{{{1}}}>{{{2|<b>}}}" ++
    "{{{<{{{1}}}&gt;}}}").toList

/-- What is written for `bracketedText` in an element of a name. -/
def writtenText (e : Expander Id) (name : String) : Text :=
  (((e.renderer {} fun _ => pure ⟨⟩).text { name := name.toList } bracketedText).run {}).1

theorem unbracketed_text_bracketedText :
    let textarea : Html.Element := { name := "textarea".toList }
    let div : Html.Element := { name := "div".toList }
    let r := trusting.renderer {} fun _ => pure ⟨⟩
    hasMarker bracketedText = true ∧
    (Ascii.sameName textarea.name r.settings.resourceDirective = false ∧
      textarea.isHtmlNamed "script".toList = false ∧ Place.Preformatted textarea) ∧
    (Ascii.sameName div.name r.settings.resourceDirective = false ∧
      div.isHtmlNamed "script".toList = false ∧
      ¬(div.holdsRawText = true ∨ Place.Preformatted div)) ∧
    Unbracketed (writtenText trusting "textarea") ∧
    Html.Reference.decode (writtenText trusting "textarea") =
      ("<</textarea><<i>><b>{{{<</textarea><<i>&gt;}}}").toList ∧
    Unbracketed (writtenText (.escaping trusting.bindings trusting.stash) "div") ∧
    ¬Unbracketed (writtenText trusting "div") := by
  intro textarea div r
  have hmarker : hasMarker bracketedText = true := by decide
  have htextarea : Ascii.sameName textarea.name r.settings.resourceDirective = false ∧
      textarea.isHtmlNamed "script".toList = false ∧ Place.Preformatted textarea := by decide
  have hdiv : Ascii.sameName div.name r.settings.resourceDirective = false ∧
      div.isHtmlNamed "script".toList = false ∧
      ¬(div.holdsRawText = true ∨ Place.Preformatted div) := by decide
  have hkept := Expander.kept_empty (.escaping trusting.bindings trusting.stash)
  have hpre := r.unbracketed_text hmarker htextarea.1 htextarea.2.1
  have hordinary := r.unbracketed_text hmarker hdiv.1 hdiv.2.1
  have hdecoded := congrArg (fun x => (x.run {}).1) (hpre.2.2 htextarea.2.2)
  refine ⟨hmarker, htextarea, hdiv, ?_, ?_, ?_, ?_⟩
  · exact (hpre.1 (.inr htextarea.2.2)).run {}
  · exact hdecoded.trans (by decide +kernel)
  · exact hordinary.2.1 hdiv.2.2 _ _ _ _ hkept
  · unfold Unbracketed
    decide +kernel

end Render

end Stencil
