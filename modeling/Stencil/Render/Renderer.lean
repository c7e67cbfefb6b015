import Stencil.Css.Sanitize
import Stencil.Html.Fragment
import Stencil.Render.Acts
import Stencil.Render.Frame

/-!
# Rendering

A renderer writes a fragment by its acts: it expands the templates of the fragment with frames of
the arguments, each built when it is first needed and then kept, and collects the requests for
modules.
-/

namespace Stencil.Render

/-- What a render works with. -/
structure Renderer (m : Type → Type) (Tree Frame : Type) where
  settings : Settings := {}
  service : Service m Tree Frame
  /-- What is written for a style that is one placeholder and nothing else. -/
  sanitize : Text → m Text
  notice : Notice → m Unit

/-- What a render has done so far. -/
structure Progress (Frame : Type) where
  frames : Frames Frame := {}
  /-- The modules asked for, in order. -/
  requests : List ModuleRequest := []

namespace Renderer

variable {m : Type → Type} [Monad m] {Tree Frame : Type}

/-- The frame of a form, built now if it is not there. -/
def frame (r : Renderer m Tree Frame) (form : Form) : StateT (Progress Frame) m Frame := do
  match (← get).frames.frame? form with
  | some f => pure f
  | none =>
    let f ← (buildFrame r.service r.notice form : m Frame)
    modify fun p => { p with frames := p.frames.insert form f }
    pure f

/-- A text with its placeholders filled in with values in a form. -/
def expand (r : Renderer m Tree Frame) (form : Form) (t : Text) :
    StateT (Progress Frame) m Text := do
  let tree ← r.service.parse t
  let f ← r.frame form
  r.service.expand tree f

/-- The acts of a renderer. -/
def acts (r : Renderer m Tree Frame) : Acts (StateT (Progress Frame) m) where
  fill := r.expand
  sanitize t := r.sanitize t
  reprocess t := r.service.reprocess t
  report request := modify fun p => { p with requests := p.requests ++ [request] }
  notice n := r.notice n

/-- The place inside an element. -/
def place (r : Renderer m Tree Frame) (e : Html.Element) : Place :=
  .inside r.settings.resourceDirective e

/-- A URL, or its replacement. -/
def filterUrl (r : Renderer m Tree Frame) (url : Text) : StateT (Progress Frame) m Text :=
  r.acts.filterUrl r.settings url

/-- The value of an attribute as it is written, before it is escaped. -/
def attributeValue (r : Renderer m Tree Frame) (name value : Text) :
    StateT (Progress Frame) m Text :=
  r.acts.attributeValue r.settings name value

/-- Text inside an element. -/
def text (r : Renderer m Tree Frame) (parent : Html.Element) (t : Text) :
    StateT (Progress Frame) m Text :=
  r.acts.text r.settings parent t

/-- The attributes that are written for an element. -/
def attributes (r : Renderer m Tree Frame) (e : Html.Element) :
    StateT (Progress Frame) m Html.Attributes :=
  r.acts.attributes r.settings e

/-- The contents that are written for an element. -/
def contents (r : Renderer m Tree Frame) (e : Html.Element) (t : Text) :
    StateT (Progress Frame) m Text :=
  r.acts.contents r.settings e t

/-- An element around its written contents. -/
def element (r : Renderer m Tree Frame) (e : Html.Element) (t : Text) :
    StateT (Progress Frame) m Text :=
  r.acts.element r.settings e t

/-- The serializer of a render. -/
def serializer (r : Renderer m Tree Frame) : Html.Serializer (StateT (Progress Frame) m) :=
  r.acts.serializer r.settings

/-- The element that the fragment stands in. -/
def context (r : Renderer m Tree Frame) : Html.Element := { name := r.settings.contextElement }

/-- What a log is told when a render starts. -/
def startNotice (r : Renderer m Tree Frame) (fragment : Text) : Notice :=
  ⟨.trace, "html_templates",
    "replacing placeholders in ".toList ++ Nat.toDigits 10 (Text.byteLength fragment) ++
      " bytes under <".toList ++ r.settings.contextElement ++ ['>']⟩

/-- A fragment written by some acts, from the start of a render to its end, and the modules it asks
for. -/
def renderBy (r : Renderer m Tree Frame) (a : Acts (StateT (Progress Frame) m)) (fragment : Text) :
    m (Text × List ModuleRequest) := do
  r.notice (r.startNotice fragment)
  let (html, p) ←
    ((a.serializer r.settings).run r.context (Html.parse r.context fragment)).run {}
  return (html, p.requests)

/-- A fragment with its placeholders filled in, and the modules it asks for. -/
def render (r : Renderer m Tree Frame) (fragment : Text) : m (Text × List ModuleRequest) :=
  r.renderBy r.acts fragment

end Renderer

/-- What is written for a style, with the log told if it is refused. -/
def sanitizing {m : Type → Type} [Monad m] (notice : Notice → m Unit) (style : Text) : m Text := do
  let verdict := Css.judge style
  match verdict.notice? with
  | some n => notice n
  | none => pure ()
  return verdict.text

theorem run_sanitizing (notice : Notice → Id Unit) (style : Text) :
    (sanitizing notice style).run = Css.sanitize style := by
  unfold sanitizing
  dsimp only
  split
  · rfl
  · rfl

/-- The renderer over an expander with the sanitizer of this library. -/
def Expander.renderer {m : Type → Type} [Monad m] (e : Expander m) (settings : Settings)
    (notice : Notice → m Unit) : Renderer m Template Bindings where
  settings
  service := e.service
  sanitize := sanitizing notice
  notice

@[simp] theorem Expander.settings_renderer {m : Type → Type} [Monad m] (e : Expander m)
    (settings : Settings) (notice : Notice → m Unit) :
    (e.renderer settings notice).settings = settings := rfl

/-- A rendered fragment and the modules to load with it. -/
structure Rendered where
  html : Text
  modules : Modules
  deriving DecidableEq, Repr, Inhabited

/-- A fragment with its placeholders filled in from an expander. -/
def Expander.render {m : Type → Type} [Monad m] (e : Expander m) (settings : Settings)
    (notice : Notice → m Unit) (fragment : Text) : m Rendered := do
  let (html, requests) ← (e.renderer settings notice).render fragment
  return { html, modules := Modules.addAll {} requests }

end Stencil.Render
