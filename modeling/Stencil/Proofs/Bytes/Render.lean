import Stencil.Proofs.Bytes.Fragment
import Stencil.Proofs.Bytes.Search
import Stencil.Proofs.Bytes.Template
import Stencil.Proofs.Render.Acts

/-!
# Rendering by bytes

A render whose every slice is one of bytes: the fragment is parsed, templates are read, markers and
references are replaced and styles are normalized at positions, and the text of an event is a span
of a longer text. It fails if any slice does. It never does: it gives what a render by characters
gives (`render?_eq`), for every fragment, configuration, list of arguments and stash, and what it
gives can be resolved (`renderResolved?_eq`).
-/

namespace Stencil.Bytes

open Text (bytes byteLength)
open Render

/-- The renderer over fixed arguments and stored pieces, with byte slices. -/
def renderer? (s : Settings) (b : Bindings) (stash : Stash) :
    Renderer Option Template Bindings where
  settings := s
  service :=
    { parse := parseTemplate?
      expand := fun tree frame => some (tree.expand frame)
      frame := some
      bindings := some b
      resolve := resolve? stash
      decode := decode?
      reprocess := fun t => some (Html.escapeText t) }
  sanitize := sanitize?
  notice _ := some ⟨⟩

section

variable {Tree Frame : Type} (r : Renderer Option Tree Frame)

/-- A span of a text inside an element, as HTML writes it. -/
def textIn? (parent : Html.Element) (t : Text) (start length : Nat) : Option Text :=
  (Text.slice? t start length).map (Html.textIn parent)

/-- A span with a marker, filled in and made safe for its place. -/
def fillSpan? (parent : Html.Element) (t : Text) (start length : Nat) (span : Text) :
    StateT (Progress Frame) Option Text := do
  match (r.place parent).policy? with
  | some .markup => r.expand .markup (Html.escapeText span)
  | some .style => escapeAngles? (← r.expand .style span)
  | some .elementText =>
    let filled ← r.expand .plain span
    let plain ← if parent.holdsRawText then escapeAngles? filled else some filled
    textIn? parent plain 0 (byteLength plain)
  | some policy => r.expand policy.form span
  | none => textIn? parent t start length

/-- A span of a text inside an element. -/
def span? (parent : Html.Element) (t : Text) (start length : Nat) :
    StateT (Progress Frame) Option Text := do
  let span ← Text.slice? t start length
  if hasMarker span then fillSpan? r parent t start length span
  else if r.place parent = .style then escapeAngles? span
  else textIn? parent t start length

/-- The serializer of a render. The span of a text is all of it. -/
def serializer? : Html.Serializer (StateT (Progress Frame) Option) :=
  { r.serializer with text := fun parent t => span? r parent t 0 (byteLength t) }

end

/-- A fragment with its placeholders filled in. -/
def render? (s : Settings) (b : Bindings) (stash : Stash) (fragment : Text) : Option Rendered := do
  let r := renderer? s b stash
  let events ← parse? r.context fragment
  let (html, p) ← ((serializer? r).run r.context events).run {}
  return { html, modules := Modules.addAll {} p.requests }

/-- A rendered fragment, and its text with the markers of stored pieces replaced. -/
def renderResolved? (s : Settings) (b : Bindings) (stash : Stash) (fragment : Text) :
    Option (Rendered × Text) := do
  let rendered ← render? s b stash fragment
  let resolved ← resolve? stash rendered.html
  return (rendered, resolved)

/-! ## Runs that cannot fail -/

section

variable {σ α β : Type}

/-- Whether a run that can fail does what a run does that cannot. -/
def Mirrors (x : StateT σ Option α) (y : StateT σ Id α) : Prop := ∀ s, x.run s = some (y.run s).run

theorem mirrors_pure (a : α) : Mirrors (pure a : StateT σ Option α) (pure a) := fun _ => rfl

theorem mirrors_lift {x : Option α} {y : Id α} (h : x = some y.run) :
    Mirrors (monadLift x : StateT σ Option α) (monadLift y) := by
  intro s
  rw [h]
  rfl

theorem mirrors_modify (f : σ → σ) : Mirrors (modify f : StateT σ Option PUnit) (modify f) :=
  fun _ => rfl

theorem Mirrors.bind {x : StateT σ Option α} {y : StateT σ Id α} {f : α → StateT σ Option β}
    {g : α → StateT σ Id β} (h : Mirrors x y) (hf : ∀ a, Mirrors (f a) (g a)) :
    Mirrors (x >>= f) (y >>= g) := by
  intro s
  rw [StateT.run_bind, h s]
  exact hf _ _

theorem sequential_mirrors {W : Type} : Sequential fun α (_ : List W) (x : StateT σ Option α)
    (y : StateT σ Id α) => Mirrors x y where
  pure := mirrors_pure
  bind := Mirrors.bind

end

/-! ## The parts of a render -/

section

variable (s : Settings) (b : Bindings) (stash : Stash)

/-- The renderer over fixed arguments and stored pieces. -/
abbrev renderer : Renderer Id Template Bindings :=
  (Expander.escaping b stash : Expander Id).renderer s fun _ => pure ()

theorem formBindings_some (form : Form) (b' : Bindings) :
    formBindings (renderer? s b stash).service form b' =
      some (formBindings (renderer s b stash).service form b').run := by
  have hanswers : Sequential fun α (_ : List Span) (x : Option α) (y : Id α) => x = some y.run :=
    { pure := fun _ => rfl
      bind := by
        rintro α β - - x y f f' rfl hf
        exact hf _ }
  exact hanswers.formBindings (resolve?_eq stash) decode?_eq (fun _ => rfl) form b'

theorem buildFrame_some (form : Form) :
    buildFrame (renderer? s b stash).service (renderer? s b stash).notice form =
      some (buildFrame (renderer s b stash).service (renderer s b stash).notice form).run := by
  change (formBindings (renderer? s b stash).service form b).bind some = _
  rw [formBindings_some]
  rfl

theorem mirrors_frame (form : Form) :
    Mirrors ((renderer? s b stash).frame form) ((renderer s b stash).frame form) := by
  intro p
  rw [Renderer.run_frame, Renderer.run_frame, buildFrame_some]
  cases p.frames.frame? form with
  | some f => rfl
  | none => rfl

theorem mirrors_expand (form : Form) (t : Text) :
    Mirrors ((renderer? s b stash).expand form t) ((renderer s b stash).expand form t) :=
  (mirrors_lift (parseTemplate?_eq t)).bind fun _ =>
    (mirrors_frame s b stash form).bind fun _ => mirrors_lift rfl

theorem related_mirrors : Acts.Related (fun _ _ x y => Mirrors x y) (renderer? s b stash).acts
    (renderer s b stash).acts where
  toSequential := sequential_mirrors
  fill := mirrors_expand s b stash
  sanitize t := mirrors_lift ((sanitize?_eq t).trans (congrArg some (run_sanitizing _ t).symm))
  reprocess _ := mirrors_lift rfl
  report _ := mirrors_modify _
  notice _ := mirrors_lift rfl

theorem slice?_all (t : Text) : Text.slice? t 0 (byteLength t) = some t := by
  have hslice := Text.slice?_append [] t []
  rwa [List.append_nil] at hslice

theorem mirrors_textIn (parent : Html.Element) (t : Text) :
    Mirrors (monadLift (textIn? parent t 0 (byteLength t)) : StateT (Progress Bindings) Option Text)
      (pure (Html.textIn parent t)) :=
  mirrors_lift (y := pure (Html.textIn parent t)) (by rw [textIn?, slice?_all]; rfl)

theorem mirrors_escapeAngles (t : Text) :
    Mirrors (monadLift (escapeAngles? t) : StateT (Progress Bindings) Option Text)
      (pure (Html.escapeAngles t)) :=
  mirrors_lift (y := pure (Html.escapeAngles t)) (escapeAngles?_eq t)

theorem mirrors_fillSpan (parent : Html.Element) (t : Text) :
    Mirrors (fillSpan? (renderer? s b stash) parent t 0 (byteLength t) t)
      ((renderer s b stash).acts.fillText s parent t) := by
  have hexpand := mirrors_expand s b stash
  have hplace : (renderer? s b stash).place parent = Place.inside s.resourceDirective parent := rfl
  unfold fillSpan? Acts.fillText
  rw [hplace]
  cases (Place.inside s.resourceDirective parent).policy? with
  | none => exact mirrors_textIn parent t
  | some policy =>
    cases policy with
    | markup => exact hexpand .markup _
    | style => exact (hexpand .style t).bind fun _ => mirrors_escapeAngles _
    | elementText =>
      refine (hexpand .plain t).bind fun filled => ?_
      cases parent.holdsRawText with
      | false => exact mirrors_textIn parent filled
      | true =>
        have htext := (mirrors_escapeAngles filled).bind fun plain => mirrors_textIn parent plain
        exact htext
    | script => exact hexpand .script t
    | attributeText => exact hexpand .plain t

theorem mirrors_span (parent : Html.Element) (t : Text) :
    Mirrors (span? (renderer? s b stash) parent t 0 (byteLength t))
      ((renderer s b stash).text parent t) := by
  have hplace : (renderer? s b stash).place parent = Place.inside s.resourceDirective parent := rfl
  have hspan : (liftM (some t) : StateT (Progress Bindings) Option Text) = pure t := rfl
  rw [Renderer.text, Expander.settings_renderer]
  unfold span? Acts.text
  rw [slice?_all, hplace, hspan, pure_bind]
  split
  · exact mirrors_fillSpan s b stash parent t
  · split
    · exact mirrors_escapeAngles t
    · exact mirrors_textIn parent t

end

/-- **A render by bytes never fails**, and gives what a render by characters does. -/
theorem render?_eq (s : Settings) (b : Bindings) (stash : Stash) (fragment : Text) :
    render? s b stash fragment = some (Id.run
      ((Expander.escaping b stash : Expander Id).render s (fun _ => pure ()) fragment)) := by
  have hcontext : (renderer? s b stash).context = (renderer s b stash).context := rfl
  have hacts := related_mirrors s b stash
  have hrun : Mirrors
      ((serializer? (renderer? s b stash)).run (renderer s b stash).context
        (Html.parse (renderer s b stash).context fragment))
      ((renderer s b stash).serializer.run (renderer s b stash).context
        (Html.parse (renderer s b stash).context fragment)) :=
    hacts.toSequential.run _ _ (Deed.ofCall s) (mirrors_span s b stash)
      (fun _ => hacts.element s) (fun _ _ => mirrors_pure _) (fun _ => mirrors_lift rfl)
      (mirrors_pure []) _
  unfold render?
  dsimp only
  rw [hcontext, parse?_eq]
  change ((serializer? (renderer? s b stash)).run (renderer s b stash).context _).run {} >>= _ = _
  rw [hrun {}]
  rfl

/-- **A fragment is rendered by bytes, and what comes out resolved, without a failure.** The
fragment may be any text, and the settings need not be valid. -/
theorem renderResolved?_eq (s : Settings) (b : Bindings) (stash : Stash) (fragment : Text) :
    let rendered := Id.run
      ((Expander.escaping b stash : Expander Id).render s (fun _ => pure ()) fragment)
    renderResolved? s b stash fragment = some (rendered, stash.resolve rendered.html) := by
  intro rendered
  change (render? s b stash fragment).bind (fun rendered =>
    (resolve? stash rendered.html).bind fun resolved => some (rendered, resolved)) = _
  rw [render?_eq, Option.bind_some, resolve?_eq, Option.bind_some]

end Stencil.Bytes
