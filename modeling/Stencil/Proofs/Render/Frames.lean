import Stencil.Proofs.Bindings.Entries
import Stencil.Proofs.Html.Markup
import Stencil.Proofs.Render.Acts
import Stencil.Proofs.Template.Spelling

/-!
# Frames of fixed arguments

With a service whose answers depend only on what it is asked every frame is known in advance, and
the frames that a render keeps make no difference, since a kept frame is the one that would be built
again (`Service.Kept`). The frames of fixed arguments bind their names to the values in the form of
the frame (`get?_frame`), so a text of a script or of a style is written as its template is filled
in with the frame of its place.
-/

namespace Stencil.Bindings

theorem lookup_mapEntries (f : Text → Id Text) (es : List (Text × Text)) (name : Text) :
    (Id.run (mapEntries f es)).1.lookup name = (es.lookup name).map fun v => (f v).run := by
  induction es with
  | nil => rfl
  | cons e es ih =>
    obtain ⟨n, v⟩ := e
    change ((n, (f v).run) :: (Id.run (mapEntries f es)).1).lookup name = _
    rw [List.lookup_cons, List.lookup_cons, ih]
    cases name == n with
    | true => rfl
    | false => rfl

/-- An action run on every value is run on the value of each name. -/
theorem get?_mapValuesM (f : Text → Id Text) (b : Bindings) (name : Text) :
    (b.mapValuesM f).run.get? name = (b.get? name).map fun v => (f v).run :=
  lookup_mapEntries f b.entries name

end Stencil.Bindings

namespace Stencil.Render

/-! ## Frames of a service -/

namespace Service

variable {Tree Frame : Type} (s : Service Id Tree Frame)

/-- The arguments with every value in a form. -/
def bindingsOf (form : Form) : Bindings := (formBindings s form s.bindings.run).run

/-- The frame of a form. -/
def frameOf (form : Form) : Frame := (s.frame (s.bindingsOf form)).run

/-- Whether the frames built so far are those of the service. -/
def Kept (p : Progress Frame) : Prop := ∀ form f, p.frames.frame? form = some f → f = s.frameOf form

theorem kept_empty : s.Kept {} := by
  intro form f h
  cases h

theorem Kept.insert {s : Service Id Tree Frame} {p : Progress Frame} (h : s.Kept p) (form : Form) :
    s.Kept { p with frames := p.frames.insert form (s.frameOf form) } := by
  intro g f hg
  change (if g = form then some (s.frameOf form) else p.frames.frame? g) = some f at hg
  split at hg
  · next heq =>
    rw [heq]
    exact (Option.some.inj hg).symm
  · exact h g f hg

end Service

theorem Renderer.settles_frame {Tree Frame : Type} (r : Renderer Id Tree Frame) (form : Form) :
    Settles r.service.Kept (r.frame form) (r.service.frameOf form) := by
  intro p hp
  rw [run_frame]
  cases hf : p.frames.frame? form with
  | some f => exact ⟨hp form f hf, hp⟩
  | none => exact ⟨rfl, hp.insert form⟩

/-! ## Frames of fixed arguments -/

namespace Expander

variable (e : Expander Id)

/-- A value as it stands in the frame of a form. -/
def value (form : Form) (v : Text) : Text :=
  (form.transform e.service
    (if form.resolvesText then Html.Reference.decode (e.stash.resolve v) else v)).run

/-- The arguments with every value in a form. -/
def frame (form : Form) : Bindings := e.service.frameOf form

theorem get?_frame (form : Form) (name : Text) :
    (e.frame form).get? name = (e.bindings.get? name).map (e.value form) := by
  change (formBindings e.service form e.bindings).run.get? name = _
  let plain (v : Text) : Id Text := do e.service.decode (← e.service.resolve v)
  have hplain := Bindings.get?_mapValuesM plain e.bindings name
  unfold formBindings value
  dsimp only
  split
  · have htransformed := Bindings.get?_mapValuesM (form.transform e.service)
      (e.bindings.mapValuesM plain).run name
    rw [hplain, Option.map_map] at htransformed
    exact htransformed
  · exact Bindings.get?_mapValuesM (form.transform e.service) e.bindings name

/-- A text with its placeholders filled in with values in a form. -/
def fill (form : Form) (t : Text) : Text := (Template.parse t).expand (e.frame form)

/-- What holds of all parts of a text and of all values in a form holds of the text filled in. -/
theorem fill_closed {P : Text → Prop} (hnil : P []) (happend : ∀ {u v}, P u → P v → P (u ++ v))
    {form : Form} (hvalue : ∀ name v, e.bindings.get? name = some v → P (e.value form v)) {t : Text}
    (ht : ∀ u, u <:+: t → P u) : P (e.fill form t) := by
  refine Template.expand_closed hnil happend ?_ (Template.spells_parse t) ht
  intro name v hv
  rw [get?_frame, Option.map_eq_some_iff] at hv
  obtain ⟨u, hu, rfl⟩ := hv
  exact hvalue name u hu

/-- A text as it is filled in if it has a marker. -/
def filled (form : Form) (t : Text) : Text := if hasMarker t then e.fill form t else t

theorem filled_closed {P : Text → Prop} (hnil : P []) (happend : ∀ {u v}, P u → P v → P (u ++ v))
    {form : Form} (hvalue : ∀ name v, e.bindings.get? name = some v → P (e.value form v)) {t : Text}
    (ht : ∀ u, u <:+: t → P u) : P (e.filled form t) := by
  unfold filled
  split
  · exact e.fill_closed hnil happend hvalue ht
  · exact ht t List.infix_rfl

/-- Whether the frames built so far are those of the arguments. -/
def Kept (p : Progress Bindings) : Prop := e.service.Kept p

theorem kept_empty : e.Kept {} := e.service.kept_empty

variable (s : Settings) (notice : Notice → Id Unit)

theorem settles_expand (form : Form) (t : Text) :
    Settles e.Kept ((e.renderer s notice).expand form t) (e.fill form t) :=
  (settles_lift _).bind (((e.renderer s notice).settles_frame form).bind (settles_lift _))

/-! ## Texts -/

variable {s} {parent : Html.Element}

theorem settles_text_of_script (h : Place.inside s.resourceDirective parent = .script)
    (hraw : parent.holdsRawText = true) (t : Text) :
    Settles e.Kept ((e.renderer s notice).text parent t) (e.filled .script t) := by
  rw [Renderer.text, settings_renderer, filled]
  split
  · next ht =>
    rw [Acts.text_of_script _ h ht]
    exact e.settles_expand s notice .script t
  · next ht =>
    have hplace : ¬Place.inside s.resourceDirective parent = .style := by
      rw [h]
      exact Place.noConfusion
    rw [Acts.text_unmarked _ (Bool.eq_false_iff.2 ht), if_neg hplace, Html.textIn_of_raw hraw]
    exact settles_pure t

theorem settles_text_of_style (h : Place.inside s.resourceDirective parent = .style) (t : Text) :
    Settles e.Kept ((e.renderer s notice).text parent t)
      (Html.escapeAngles (e.filled .style t)) := by
  rw [Renderer.text, settings_renderer, filled]
  split
  · next ht =>
    rw [Acts.text_of_style _ h ht]
    exact (e.settles_expand s notice .style t).bind (settles_pure _)
  · next ht =>
    rw [Acts.text_unmarked _ (Bool.eq_false_iff.2 ht), if_pos h]
    exact settles_pure _

theorem settles_text_of_ordinary (h : Place.inside s.resourceDirective parent = .ordinary)
    {t : Text} (ht : hasMarker t = true) :
    Settles e.Kept ((e.renderer s notice).text parent t) (e.fill .markup (Html.escapeText t)) := by
  rw [Renderer.text, settings_renderer, Acts.text_of_ordinary _ h ht]
  exact e.settles_expand s notice .markup (Html.escapeText t)

end Expander

end Stencil.Render
