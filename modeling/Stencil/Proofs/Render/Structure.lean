import Stencil.Proofs.Html.Shapes
import Stencil.Proofs.Render.Filling
import Stencil.Proofs.Script.Reading

/-!
# Arguments and structure

No argument changes the structure of what is rendered. Texts that are read as markup come out
without an opening bracket, whatever the arguments are, so a render fills a forest soundly
(`sound_filling`), and what it writes is read with the shape that it has without arguments:
`shapes_render`. This needs a fragment whose own tags are read back as they were read, since a
start tag that ends elsewhere takes values along with it (`shapes_render_needs_bodies`).
-/

namespace Stencil.Render

open Html (Element Forest Builder Token)

/-! ## Values without brackets -/

/-- Values that are markup or literals of a script have no opening bracket. -/
theorem bracket_not_mem_value (b : Bindings) {form : Form} (hform : form = .markup ∨ form = .script)
    (v : Text) : '<' ∉ (Expander.escaping b).value form v := by
  unfold Expander.value
  rcases hform with rfl | rfl
  · exact Html.bracket_not_mem_escapeText _
  · exact Script.bracket_not_mem_literal _

theorem bracket_not_mem_fill (b : Bindings) {form : Form} (hform : form = .markup ∨ form = .script)
    {t : Text} (ht : '<' ∉ t) : '<' ∉ (Expander.escaping b).fill form t := by
  apply (Expander.escaping b).fill_closed (P := fun u => '<' ∉ u)
  · exact List.not_mem_nil
  · intro u v hu hv h
    exact (List.mem_append.1 h).elim hu hv
  · intro name v _
    exact bracket_not_mem_value b hform v
  · intro u hu h
    exact ht (hu.subset h)

/-! ## A render fills soundly -/

/-- Whether a text with a marker in a script has no opening bracket. -/
def ScriptsUnbracketed (parent : Element) (t : Text) : Prop :=
  parent.isHtmlNamed "script".toList = true → hasMarker t = true → '<' ∉ t

instance (parent : Element) (t : Text) : Decidable (ScriptsUnbracketed parent t) :=
  inferInstanceAs (Decidable (_ → _ → _))

variable (s : Settings) (b : Bindings) (e : Element) (t : Text)

/-- Where markup is read a text is escaped, or it is filled in without an opening bracket. -/
theorem filledText_of_not_raw (h : e.holdsRawText = false) :
    (∃ u, filledText s b e t = Html.escapeText u) ∨
      (e.isHtml = true → e.name ∉ Place.preformattedNames) ∧ '<' ∉ filledText s b e t := by
  have htext (u : Text) : Html.textIn e u = Html.escapeText u := Html.textIn_of_not_raw h u
  have hspec := Place.inside_spec s.resourceDirective e
  unfold filledText Acts.text Acts.fillText
  generalize Place.inside s.resourceDirective e = place at hspec ⊢
  cases hspec with
  | directive =>
    refine .inl ⟨t, ?_⟩
    rw [if_neg (show ¬Place.directive = .style from Place.noConfusion), ← htext]
    exact ite_self _
  | script _ he | style _ he =>
    rw [Place.holdsRawText_of_isHtmlNamed he] at h
    exact absurd h (by decide)
  | preformatted =>
    by_cases ht : hasMarker t = true
    · rw [if_pos ht]
      exact .inl ⟨_, htext _⟩
    · rw [if_neg ht]
      exact .inl ⟨t, htext t⟩
  | rawText _ hraw =>
    rw [hraw] at h
    cases h
  | ordinary _ _ hpre =>
    by_cases ht : hasMarker t = true
    · rw [if_pos ht]
      exact .inr ⟨hpre, bracket_not_mem_fill b (.inl rfl) (Html.bracket_not_mem_escapeText t)⟩
    · rw [if_neg ht]
      exact .inl ⟨t, htext t⟩

/-- Where markup is not read a text stays, or it comes out without an opening bracket. -/
theorem filledText_of_raw (h : e.holdsRawText = true) (ht : ScriptsUnbracketed e t) :
    filledText s b e t = t ∨ '<' ∉ filledText s b e t := by
  have htext (u : Text) : Html.textIn e u = u := Html.textIn_of_raw h u
  have hspec := Place.inside_spec s.resourceDirective e
  unfold filledText Acts.text Acts.fillText
  generalize Place.inside s.resourceDirective e = place at hspec ⊢
  cases hspec with
  | directive =>
    rw [if_neg (show ¬Place.directive = .style from Place.noConfusion)]
    exact .inl ((ite_self _).trans (htext t))
  | script _ he =>
    by_cases hmarker : hasMarker t = true
    · rw [if_pos hmarker]
      exact .inr (bracket_not_mem_fill b (.inr rfl) (ht he hmarker))
    · rw [if_neg hmarker]
      exact .inl (htext t)
  | style =>
    by_cases hmarker : hasMarker t = true
    · rw [if_pos hmarker]
      exact .inr (Html.bracket_not_mem_escapeAngles _)
    · rw [if_neg hmarker]
      exact .inr (Html.bracket_not_mem_escapeAngles t)
  | preformatted _ hhtml he =>
    rw [Element.holdsRawText, hhtml, Place.not_isRawText_of_preformatted he] at h
    cases h
  | rawText =>
    by_cases hmarker : hasMarker t = true
    · rw [if_pos hmarker]
      change Html.textIn e _ = t ∨ '<' ∉ Html.textIn e _
      rw [htext, if_pos h]
      exact .inr (Html.bracket_not_mem_escapeAngles _)
    · rw [if_neg hmarker]
      exact .inl (htext t)
  | ordinary _ hraw =>
    rw [hraw] at h
    cases h

theorem filledText_of_preformatted (he : Place.Preformatted e) :
    ∃ u, filledText s b e t = Html.escapeText u := by
  rcases filledText_of_not_raw s b e t he.holdsRawText with h | ⟨h, -⟩
  · exact h
  · exact absurd he.2 (h he.1)

/-- **A render fills soundly.** -/
theorem sound_filling : (filling s b).Sound ScriptsUnbracketed where
  name _ := rfl
  ns _ := rfl
  slash _ := rfl
  attributes e := by
    change (((e.attributes.filter _).map _).map Prod.fst).Sublist _
    rw [List.map_map]
    exact List.filter_sublist.map Prod.fst
  bracket e t h := by
    rcases filledText_of_not_raw s b e t h with ⟨u, hu⟩ | ⟨-, hbracket⟩
    · change '<' ∉ filledText s b e t
      rw [hu]
      exact Html.bracket_not_mem_escapeText u
    · exact hbracket
  newline e t h := by
    have hnames : ∀ n ∈ Html.leadingNewlineNames, n ∈ Place.preformattedNames := by decide
    obtain ⟨hhtml, hdrops⟩ := Bool.and_eq_true_iff.1 h
    exact filledText_of_preformatted s b e t ⟨hhtml, hnames _ (of_decide_eq_true hdrops)⟩
  escapable e t hhtml h := by
    have hnames : ∀ n ∈ Html.escapableNames, n ∈ Place.preformattedNames := by decide
    exact filledText_of_preformatted s b e t ⟨hhtml, hnames _ (of_decide_eq_true h)⟩
  body e t hbody ht hc := by
    intro hraw hname
    have hholds : e.holdsRawText = true := by
      rw [Element.holdsRawText, Element.isHtml_of_readsBody hbody, hraw]
      rfl
    rcases filledText_of_raw s b e t hholds ht with h | h
    · change ¬Html.Tag.Closes e.name (filledText s b e t)
      rw [h]
      exact hc hraw hname
    · exact Html.isBody_of_not_mem h hraw hname

/-! ## Structure -/

/-- What a render with fixed arguments writes, with the settings of this library. -/
def rendered (b : Bindings) (fragment : Text) : Text :=
  ((Expander.escaping b : Expander Id).render {} (fun _ => pure ()) fragment).run.html

/-- **No argument changes the structure of what is rendered.** Read again, what a render writes
makes every serializer write the same elements with the same attributes, and the same comments,
inside the same elements, whatever the arguments are. The fragment must hold no text inside a script
with both a marker and an opening bracket; and its parse must open no HTML element with a body by a
tag with a slash, and insert no HTML element directly into a foreign one. -/
theorem shapes_render (fragment : Text)
    (hscripts : ∀ p ∈ (Forest.ofEvents (Html.parse Html.divElement fragment)).texts Html.divElement,
      ScriptsUnbracketed p.1 p.2)
    (hslash : ∀ turn ∈ Html.turns Html.divElement fragment, Html.slashesBody turn = false)
    (hrecovers : ∀ turn ∈ Html.turns Html.divElement fragment, Html.recoversInForeign turn = false)
    (b : Bindings) {σ : Type} (z : Html.Serializer (StateM σ)) (state : σ) :
    (z.calls Html.divElement (Html.parse Html.divElement (rendered b fragment)) state).filterMap
        Html.Call.shape? =
      (z.calls Html.divElement (Html.parse Html.divElement (rendered .empty fragment))
        state).filterMap Html.Call.shape? := by
  have hgrown := Html.grown_steady (show Html.divElement.holdsHtml = true from rfl) fragment hslash
    hrecovers
  let forest := Forest.ofEvents (Html.parse Html.divElement fragment)
  have hshapes (b : Bindings) :
      (Html.parse Html.divElement (rendered b fragment)).filterMap Html.Event.shape? =
        ((forest.rewrite (filling {} b) Html.divElement).outline.reread
          Html.divElement [] [] []).filterMap Html.Event.shape? := by
    have hlegible := Html.legible_rewrite (sound_filling {} b) hgrown hscripts (by decide)
    have hhtml := html_render {} b (fun _ => pure ()) fragment
    have hparse := Html.parse_source (by decide) (by decide) hlegible
    rw [rendered, hhtml]
    refine (congrArg _ hparse).trans ?_
    exact Html.shapes_reread Html.divElement _ rfl rfl
  have hfate : (filling {} b).fate = (filling {} .empty).fate := rfl
  have hrebuilt (e : Element) :
      ((filling {} b).rebuilt e).bare = ((filling {} .empty).rebuilt e).bare := by
    unfold filling Element.bare
    dsimp only
    rw [List.map_map, List.map_map]
    rfl
  have houtline := Html.outline_rewrite hfate hrebuilt
    (Forest.ofEvents (Html.parse Html.divElement fragment)) Html.divElement
  rw [z.shapes_calls, z.shapes_calls, hshapes, hshapes]
  dsimp only [forest]
  rw [houtline]

/-- The shapes of what the serializer of HTML is asked to write for a fragment. -/
def shapes (fragment : Text) : List Html.Call :=
  ((Html.Serializer.plain fun _ => pure () : Html.Serializer (StateM Unit)).calls Html.divElement
    (Html.parse Html.divElement fragment) ()).filterMap Html.Call.shape?

/-- A fragment that is filled in a value, in a text and in a script. -/
def filledFragment : Text := "<p title='{{{1}}}'>{{{1}}}<script>f({{{1}}})</script>".toList

theorem shapes_render_filledFragment :
    (∀ p ∈ (Forest.ofEvents (Html.parse Html.divElement filledFragment)).texts Html.divElement,
      ScriptsUnbracketed p.1 p.2) ∧
    (∀ turn ∈ Html.turns Html.divElement filledFragment, Html.slashesBody turn = false) ∧
    (∀ turn ∈ Html.turns Html.divElement filledFragment, Html.recoversInForeign turn = false) ∧
    shapes (rendered (.positional ["'\"></script><i>".toList]) filledFragment) =
      shapes (rendered .empty filledFragment) := by
  have hscripts : ∀ p ∈ (Forest.ofEvents (Html.parse Html.divElement filledFragment)).texts
      Html.divElement, ScriptsUnbracketed p.1 p.2 := by
    decide +kernel
  have hturns : ∀ turn ∈ Html.turns Html.divElement filledFragment,
      Html.slashesBody turn = false ∧ Html.recoversInForeign turn = false := by
    decide +kernel
  have hslash := fun turn h => (hturns turn h).1
  have hrecovers := fun turn h => (hturns turn h).2
  exact ⟨hscripts, hslash, hrecovers, shapes_render filledFragment hscripts hslash hrecovers _ _ _⟩

/-- An argument changes the structure where a tag with a slash opens an element with a body: a value
inside it is read as its body, and can close it. -/
theorem shapes_render_needs_slashesBody : ¬∀ (fragment : Text) (b : Bindings),
    (∀ p ∈ (Forest.ofEvents (Html.parse Html.divElement fragment)).texts Html.divElement,
      ScriptsUnbracketed p.1 p.2) →
    (∀ turn ∈ Html.turns Html.divElement fragment, Html.recoversInForeign turn = false) →
    shapes (rendered b fragment) = shapes (rendered .empty fragment) := by
  intro h
  have hshapes := h "<script/><b title='{{{1}}}'></b>".toList
    (.positional ["</script><i>".toList]) (by decide +kernel) (by decide +kernel)
  exact absurd hshapes (by decide +kernel)

/-- An argument changes the structure where an end tag inserts an HTML element into a foreign one:
read again, the element ends the foreign content, and what follows it is HTML. -/
theorem shapes_render_needs_recoversInForeign : ¬∀ (fragment : Text) (b : Bindings),
    (∀ p ∈ (Forest.ofEvents (Html.parse Html.divElement fragment)).texts Html.divElement,
      ScriptsUnbracketed p.1 p.2) →
    (∀ turn ∈ Html.turns Html.divElement fragment, Html.slashesBody turn = false) →
    shapes (rendered b fragment) = shapes (rendered .empty fragment) := by
  intro h
  have hshapes := h "<svg></p><style><g title='{{{1}}}'></g></style></svg>".toList
    (.positional ["</style><i>".toList]) (by decide +kernel) (by decide +kernel)
  exact absurd hshapes (by decide +kernel)

end Stencil.Render
