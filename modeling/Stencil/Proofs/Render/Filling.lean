import Stencil.Proofs.Html.Rewrite
import Stencil.Proofs.Render.Frames

/-!
# Filling a forest

With fixed arguments and the processor that escapes, a render rewrites the forest of a fragment:
`filling` says what becomes of each text, value and element, and `html_render` that a render
writes the source of the rewritten forest.
-/

namespace Stencil.Render

variable (s : Settings) (b : Bindings)

/-- The acts of a render with fixed arguments and the processor that escapes, with the frames known
in advance and without a log. -/
def fillingActs : Acts Id where
  fill form t := pure ((Expander.escaping b).fill form t)
  sanitize t := pure (Css.sanitize t)
  reprocess t := pure (Html.escapeText t)
  report _ := pure ⟨⟩
  notice _ := pure ⟨⟩

/-- The value of an attribute as it is written, before it is escaped. -/
def filledValue (name value : Text) : Text := ((fillingActs b).attributeValue s name value).run

/-- What is written for a text. -/
def filledText (parent : Html.Element) (t : Text) : Text := ((fillingActs b).text s parent t).run

/-- The rewriting of a render. -/
def filling : Html.Rewrite where
  text := filledText s b
  fate e :=
    if Place.inside s.resourceDirective e = .directive then .dropped
    else if e.attributes.any fun a => a.1 = s.bodyMarker then .flattened
    else .kept
  rebuilt e :=
    { e with
      attributes := (e.attributes.filter fun a => !(a.1 = s.bodyMarker : Bool)).map
        fun (name, value) => (name, filledValue s b name value)
      selfClosing := false }

/-! ## A render fills -/

theorem attributes_fillingActs (e : Html.Element) :
    (fillingActs b).attributes s e = pure ((filling s b).rebuilt e).attributes :=
  List.mapM_pure

theorem element_fillingActs (e : Html.Element) (t : Text) :
    (fillingActs b).element s e t = pure ((filling s b).elementText e t) := by
  unfold Acts.element Html.Rewrite.elementText
  rw [attributes_fillingActs, pure_bind]
  unfold Acts.contents filling
  dsimp only
  split
  · rfl
  · split
    · rfl
    · rfl

/-- The serializer with these acts rewrites. -/
theorem serializer_fillingActs : (fillingActs b).serializer s = (filling s b).serializer := by
  have helement : (fillingActs b).element s =
      fun e contents => pure ((filling s b).elementText e contents) :=
    funext fun e => funext (element_fillingActs s b e)
  unfold Acts.serializer Html.Rewrite.serializer
  rw [helement]
  rfl

variable (notice : Notice → Id Unit)

/-- The renderer of fixed arguments. -/
abbrev renderer : Renderer Id Template Bindings :=
  (Expander.escaping b : Expander Id).renderer s notice

/-- A render does what its acts do when the frames are known in advance. -/
theorem related_fillingActs :
    Acts.Related (fun _ _ x y => Settles (Expander.escaping b).Kept x y.run)
      (renderer s b notice).acts (fillingActs b) where
  toSequential := sequential_settles _
  fill form t := (Expander.escaping b).settles_expand s notice form t
  sanitize t := by
    change Settles _ (monadLift (sanitizing notice t)) (Css.sanitize t)
    rw [← run_sanitizing notice t]
    exact settles_lift _
  reprocess _ := settles_lift _
  report _ _ hp := ⟨rfl, hp⟩
  notice _ := settles_lift _

/-- **A render writes the source of the rewritten forest.** -/
theorem html_render (fragment : Text) :
    ((Expander.escaping b : Expander Id).render s notice fragment).run.html =
      ((Html.Forest.ofEvents (Html.parse (renderer s b notice).context fragment)).rewrite
        (filling s b) (renderer s b notice).context).source := by
  have hhtml := ((related_fillingActs s b notice).run s fragment {}
    (Expander.escaping b).kept_empty).1
  rw [serializer_fillingActs] at hhtml
  exact hhtml.trans (Html.run_rewrite (filling s b) rfl fragment)

end Stencil.Render
