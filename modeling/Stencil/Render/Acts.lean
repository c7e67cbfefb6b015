import Stencil.Html.Serializer
import Stencil.Modules
import Stencil.Render.Place
import Stencil.Settings

/-!
# Writing by acts

A render is a serializer that fills placeholders in. Text and values without a marker are written
as HTML writes them; those with one are filled in with the values in the form of their place, and
what comes out is escaped for the place. The element that asks for modules is not written,
and its requests are reported in the order in which such elements close.

What a render does besides writing are its `Acts`, and it writes by any: by those of a renderer, or
by others that it is compared with.
-/

namespace Stencil.Render

/-- A notice about a render. -/
def debug (message : Text) : Notice := ⟨.debug, "html_templates", message⟩

/-- How a render does what it does besides writing. -/
structure Acts (n : Type → Type) where
  /-- A text with its placeholders filled in with values in a form. -/
  fill : Form → Text → n Text
  /-- What is written for a style that is one placeholder and nothing else. -/
  sanitize : Text → n Text
  reprocess : Text → n Text
  report : ModuleRequest → n Unit
  notice : Notice → n Unit

namespace Acts

variable {n : Type → Type} [Monad n] (a : Acts n) (s : Settings)

/-- A URL, or its replacement. -/
def filterUrl (url : Text) : n Text := do
  if !s.url.allows url then
    a.notice (debug ("rejected url ".toList ++ Text.quote url))
  return s.url.filter url

/-- The value of an attribute with its placeholders filled in. A style that is one placeholder and
nothing else may hold several declarations, and is sanitized. -/
def fillAttribute (name value : Text) : n Text := do
  let place := AttributePlace.ofName name
  if !hasMarker value then pure value
  else if place = .style && isSinglePlaceholder value then
    a.sanitize (← a.fill .plain value)
  else a.fill place.policy.form value

/-- The value of an attribute as it is written, before it is escaped. -/
def attributeValue (name value : Text) : n Text := do
  let value ← a.fillAttribute name value
  if isUrlAttribute name then a.filterUrl s value else pure value

/-- Reports the module that a directive asks for, if it names one. -/
def request (e : Html.Element) : n Unit := do
  let kind := ModuleKind.ofType (e.attributes.get? "type".toList)
  match e.attributes.get? "module".toList with
  | some name =>
    a.notice (debug ("recorded ".toList ++ kind.label.toList ++ " module ".toList ++ name))
    a.report ⟨kind, name⟩
  | none => a.notice (debug "resource directive without module dropped".toList)

/-- Text with a marker, filled in and made safe for its place. In ordinary content the text itself
is escaped before its placeholders are filled in, in a style after; the text of other elements is
written as HTML writes it, but never with angle brackets. -/
def fillText (parent : Html.Element) (t : Text) : n Text := do
  match (Place.inside s.resourceDirective parent).policy? with
  | some .markup => a.fill .markup (Html.escapeText t)
  | some .style => return Html.escapeAngles (← a.fill .style t)
  | some .elementText =>
    let filled ← a.fill .plain t
    return Html.textIn parent (if parent.holdsRawText then Html.escapeAngles filled else filled)
  | some policy => a.fill policy.form t
  | none => return Html.textIn parent t

/-- Text inside an element. Text of a style never has angle brackets. -/
def text (parent : Html.Element) (t : Text) : n Text := do
  if hasMarker t then a.fillText s parent t
  else if Place.inside s.resourceDirective parent = .style then return Html.escapeAngles t
  else return Html.textIn parent t

/-- The attributes that are written for an element: all but the marker of elements whose contents
are processed again, each with its value. -/
def attributes (e : Html.Element) : n Html.Attributes :=
  (e.attributes.filter fun a => !(a.1 = s.bodyMarker : Bool)).mapM fun (name, value) => do
    return (name, ← a.attributeValue s name value)

/-- The contents that are written for an element. -/
def contents (e : Html.Element) (t : Text) : n Text :=
  if e.attributes.any fun a => a.1 = s.bodyMarker then a.reprocess t else pure t

/-- An element around its written contents. -/
def element (e : Html.Element) (t : Text) : n Text := do
  if Place.inside s.resourceDirective e = .directive then
    a.request e
    return []
  let attributes ← a.attributes s e
  let contents ← a.contents s e t
  return Html.elementText { e with attributes } contents

/-- The serializer of a render. -/
def serializer : Html.Serializer n where
  start _ := pure []
  text := a.text s
  element _ := a.element s
  comment _ t := pure (Html.commentText t)
  notice := a.notice

end Acts

end Stencil.Render
