import Stencil.Proofs.Html.Markup
import Stencil.Proofs.Render.Places
import Stencil.Proofs.Render.Sequential
import Stencil.Render.Renderer

/-!
# Related acts

Besides writing, a render fills spans in and reports what is asked for. Two renders whose acts are
related do related things, and what they do in order is read off the fragment
(`Acts.Related.run`).
-/

namespace Stencil.Render

/-! ## Spans -/

/-- A text or a value that is filled in: what is parsed of it, and the form of the values. -/
structure Span where
  form : Form
  source : Text
  deriving DecidableEq, Repr

namespace Span

/-- What is filled in of a text: all of it if it has a marker, unless it stands in the directive. In
ordinary content it is escaped first. -/
def ofText? (s : Settings) (parent : Html.Element) (t : Text) : Option Span :=
  if hasMarker t then
    (Place.inside s.resourceDirective parent).policy?.map fun policy =>
      ⟨policy.form, if policy = .markup then Html.escapeText t else t⟩
  else none

/-- What is filled in of the value of an attribute: all of it if it has a marker. A style that is
one placeholder and nothing else takes plain values. -/
def ofValue? (name value : Text) : Option Span :=
  if hasMarker value then
    let place := AttributePlace.ofName name
    if place = .style && isSinglePlaceholder value then some ⟨.plain, value⟩
    else some ⟨place.policy.form, value⟩
  else none

end Span

end Render

/-- What an element asks for: the module that a directive names, of the kind its type selects. -/
def ModuleRequest.of? (directive : Text) (e : Html.Element) : Option ModuleRequest :=
  if Ascii.sameName e.name directive then
    (e.attributes.get? "module".toList).map fun name =>
      ⟨.ofType (e.attributes.get? "type".toList), name⟩
  else none

namespace Render

/-- What a render does besides writing. -/
inductive Deed where
  | fill (span : Span)
  | report (request : ModuleRequest)
  deriving DecidableEq, Repr

namespace Deed

def span? : Deed → Option Span
  | .fill span => some span
  | .report _ => none

def request? : Deed → Option ModuleRequest
  | .fill _ => none
  | .report request => some request

/-- What is done for the start tag of an element. The directive reports what it asks for. Elsewhere
the values are filled in that are written; the elements inside the directive are written, too,
before they are dropped with it. -/
def ofElement (s : Settings) (e : Html.Element) : List Deed :=
  if Place.inside s.resourceDirective e = .directive then
    ((ModuleRequest.of? s.resourceDirective e).map report).toList
  else (e.attributes.filter fun a => !(a.1 = s.bodyMarker : Bool)).flatMap fun (name, value) =>
    ((Span.ofValue? name value).map fill).toList

def ofCall (s : Settings) : Html.Call → List Deed
  | .text parent t => ((Span.ofText? s parent t).map fill).toList
  | .element _ e _ => ofElement s e
  | .start _ | .comment _ _ => []

end Deed

end Render

namespace Settings

/-- What a render of a fragment does besides writing, in order. -/
def deeds (s : Settings) (fragment : Text) : List Render.Deed :=
  let context : Html.Element := { name := s.contextElement }
  (Html.Event.calls context [] (Html.parse context fragment)).flatMap (Render.Deed.ofCall s)

/-- What a fragment has filled in, in the order in which it is written. -/
def spans (s : Settings) (fragment : Text) : List Render.Span :=
  (s.deeds fragment).filterMap Render.Deed.span?

end Settings

namespace Render

/-- A frame that is there is taken, and another is built and kept. -/
theorem Renderer.run_frame {m : Type → Type} [Monad m] [LawfulMonad m] {Tree Frame : Type}
    (r : Renderer m Tree Frame) (form : Form) (p : Progress Frame) :
    (r.frame form).run p = match p.frames.frame? form with
      | some f => pure (f, p)
      | none => buildFrame r.service r.notice form >>= fun f =>
          pure (f, { p with frames := p.frames.insert form f }) := by
  unfold frame
  rw [StateT.run_bind, StateT.run_get, pure_bind]
  cases p.frames.frame? form with
  | some f => rfl
  | none =>
    dsimp only
    rw [StateT.run_bind, StateT.run_monadLift, bind_assoc]
    simp only [pure_bind, StateT.run_bind, StateT.run_modify, StateT.run_pure]
    rfl

/-! ## Texts -/

namespace Acts

variable {n : Type → Type} [Monad n] (a : Acts n) {s : Settings} {parent : Html.Element} {t : Text}

theorem text_unmarked (ht : hasMarker t = false) : a.text s parent t =
    pure (if Place.inside s.resourceDirective parent = .style then Html.escapeAngles t
      else Html.textIn parent t) := by
  rw [text, if_neg (ne_true_of_eq_false ht)]
  split
  · rfl
  · rfl

/-- A text is not filled in where the element is a directive. -/
theorem text_of_directive (h : Place.inside s.resourceDirective parent = .directive) :
    a.text s parent t = pure (Html.textIn parent t) := by
  rw [text, fillText, h]
  exact ite_self _

theorem text_of_script (h : Place.inside s.resourceDirective parent = .script)
    (ht : hasMarker t = true) : a.text s parent t = a.fill .script t := by
  rw [text, if_pos ht, fillText, h]
  rfl

theorem text_of_style (h : Place.inside s.resourceDirective parent = .style)
    (ht : hasMarker t = true) :
    a.text s parent t = a.fill .style t >>= fun filled => pure (Html.escapeAngles filled) := by
  rw [text, if_pos ht, fillText, h]
  rfl

theorem text_of_rawText (h : Place.inside s.resourceDirective parent = .rawText)
    (hraw : parent.holdsRawText = true) (ht : hasMarker t = true) :
    a.text s parent t = a.fill .plain t >>= fun filled => pure (Html.escapeAngles filled) := by
  rw [text, if_pos ht, fillText, h]
  refine congrArg (a.fill .plain t >>= ·) (funext fun filled => ?_)
  rw [if_pos hraw, Html.textIn_of_raw hraw]

theorem text_of_preformatted (h : Place.inside s.resourceDirective parent = .preformatted)
    (hraw : parent.holdsRawText = false) (ht : hasMarker t = true) :
    a.text s parent t = a.fill .plain t >>= fun filled => pure (Html.escapeText filled) := by
  rw [text, if_pos ht, fillText, h]
  refine congrArg (a.fill .plain t >>= ·) (funext fun filled => ?_)
  rw [if_neg (ne_true_of_eq_false hraw), Html.textIn_of_not_raw hraw]

theorem text_of_ordinary (h : Place.inside s.resourceDirective parent = .ordinary)
    (ht : hasMarker t = true) : a.text s parent t = a.fill .markup (Html.escapeText t) := by
  rw [text, if_pos ht, fillText, h]
  rfl

end Acts

/-! ## Related acts -/

section

variable {n n' : Type → Type} [Monad n] [Monad n']

/-- Acts that are related one by one. -/
structure Acts.Related (Rel : (α : Type) → List Deed → n α → n' α → Prop) (a : Acts n)
    (a' : Acts n') : Prop extends Sequential Rel where
  fill (form : Form) (t : Text) : Rel Text [.fill ⟨form, t⟩] (a.fill form t) (a'.fill form t)
  sanitize (t : Text) : Rel Text [] (a.sanitize t) (a'.sanitize t)
  reprocess (t : Text) : Rel Text [] (a.reprocess t) (a'.reprocess t)
  report (request : ModuleRequest) :
    Rel Unit [.report request] (a.report request) (a'.report request)
  notice (n : Notice) : Rel Unit [] (a.notice n) (a'.notice n)

namespace Acts.Related

variable {Rel : (α : Type) → List Deed → n α → n' α → Prop} {a : Acts n} {a' : Acts n'}
  (h : Related Rel a a') (s : Settings)
include h

theorem fillAttribute (name value : Text) :
    Rel Text ((Span.ofValue? name value).map Deed.fill).toList (a.fillAttribute name value)
      (a'.fillAttribute name value) := by
  unfold Acts.fillAttribute Span.ofValue?
  dsimp only
  cases hasMarker value with
  | false => exact h.pure value
  | true =>
    have hmarked : ¬(!true) = true := by decide
    rw [if_pos rfl, if_neg hmarked, if_neg hmarked]
    split
    · exact h.bind_nil (h.fill .plain value) h.sanitize
    · exact h.fill _ value

theorem filterUrl (url : Text) : Rel Text [] (a.filterUrl s url) (a'.filterUrl s url) := by
  unfold Acts.filterUrl
  dsimp only
  split
  · exact h.bind_nil (h.notice _) fun _ => h.pure _
  · exact h.pure _

theorem attributeValue (name value : Text) :
    Rel Text ((Span.ofValue? name value).map Deed.fill).toList (a.attributeValue s name value)
      (a'.attributeValue s name value) := by
  unfold Acts.attributeValue
  refine h.bind_nil (h.fillAttribute name value) fun filled => ?_
  split
  · exact h.filterUrl s filled
  · exact h.pure filled

/-- **A directive reports what it asks for.** -/
theorem request {e : Html.Element} (he : Ascii.sameName e.name s.resourceDirective = true) :
    Rel Unit ((ModuleRequest.of? s.resourceDirective e).map Deed.report).toList (a.request e)
      (a'.request e) := by
  unfold Acts.request ModuleRequest.of?
  rw [if_pos he]
  cases e.attributes.get? "module".toList with
  | none => exact h.notice _
  | some name => exact h.bind (h.notice _) fun _ => h.report _

theorem fillText {t : Text} (ht : hasMarker t = true) (parent : Html.Element) :
    Rel Text ((Span.ofText? s parent t).map Deed.fill).toList (a.fillText s parent t)
      (a'.fillText s parent t) := by
  unfold Acts.fillText Span.ofText?
  rw [if_pos ht]
  cases (Place.inside s.resourceDirective parent).policy? with
  | none => exact h.pure _
  | some policy =>
    cases policy with
    | markup => exact h.fill .markup _
    | style => exact h.bind_nil (h.fill .style t) fun _ => h.pure _
    | elementText => exact h.bind_nil (h.fill .plain t) fun _ => h.pure _
    | script => exact h.fill .script t
    | attributeText => exact h.fill .plain t

theorem text (parent : Html.Element) (t : Text) :
    Rel Text ((Span.ofText? s parent t).map Deed.fill).toList (a.text s parent t)
      (a'.text s parent t) := by
  unfold Acts.text
  cases ht : hasMarker t with
  | true => exact h.fillText s ht parent
  | false =>
    have hnone : Span.ofText? s parent t = none := by
      rw [Span.ofText?, ht, if_neg Bool.false_ne_true]
    rw [if_neg Bool.false_ne_true, if_neg Bool.false_ne_true, hnone]
    split
    · exact h.pure _
    · exact h.pure _

theorem contents (e : Html.Element) (t : Text) :
    Rel Text [] (a.contents s e t) (a'.contents s e t) := by
  unfold Acts.contents
  split
  · exact h.reprocess t
  · exact h.pure t

variable [LawfulMonad n] [LawfulMonad n']

theorem element (e : Html.Element) (t : Text) :
    Rel Text (Deed.ofElement s e) (a.element s e t) (a'.element s e t) := by
  unfold Acts.element Deed.ofElement
  dsimp only
  split
  · next hplace =>
    exact h.bind_nil (h.request s (Place.inside_eq_directive.1 hplace)) fun _ => h.pure []
  · refine h.bind_nil (h.mapM (fun a => ?_) _) fun attributes => ?_
    · exact h.bind_nil (h.attributeValue s a.1 a.2) fun value => h.pure (a.1, value)
    · exact h.bind_nil (h.contents s e t) fun _ => h.pure _

/-- **Renders with related acts are related**, and what they do is what the fragment says. -/
theorem run (fragment : Text) :
    let context : Html.Element := { name := s.contextElement }
    Rel Text (s.deeds fragment) ((a.serializer s).run context (Html.parse context fragment))
      ((a'.serializer s).run context (Html.parse context fragment)) := by
  intro context
  exact h.toSequential.run (a.serializer s) (a'.serializer s) (Deed.ofCall s) (h.text s)
    (fun _ => h.element s) (fun _ _ => h.pure _) h.notice (h.pure []) (Html.parse context fragment)

end Acts.Related

end

end Stencil.Render
