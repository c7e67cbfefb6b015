import Stencil.Html.Escape
import Stencil.Html.Event

/-!
# Serializers

A serializer says how each part of a fragment is written, given the element it stands in. An
element is written after its contents, which are the joined writings of its children. `run`
writes a whole fragment from its events; what is written may depend on effects of the monad,
and those happen in the order of the events.

`plain` is the serializer of HTML itself.
-/

namespace Stencil.Html

/-- How the parts of a fragment are written. The first argument of each part is the element it
stands in. -/
structure Serializer (m : Type → Type) where
  /-- Written before everything else, for the context element. -/
  start : Element → m Text
  text : Element → Text → m Text
  /-- Writes an element around its written contents. -/
  element : Element → Element → Text → m Text
  comment : Element → Text → m Text
  notice : Notice → m Unit

/-- An element whose contents are being written. -/
structure Sheet where
  element : Element
  /-- The writings of its children so far, the latest first. -/
  written : List Text := []

namespace Sheet

/-- Adds the writing of a child. -/
def add (s : Sheet) (t : Text) : Sheet := { s with written := t :: s.written }

/-- The contents written so far. -/
def contents (s : Sheet) : Text := s.written.reverse.flatten

@[simp] theorem contents_add (s : Sheet) (t : Text) : (s.add t).contents = s.contents ++ t := by
  simp [add, contents]

end Sheet

/-- The sheets of the open elements: the innermost, and those around it. The outermost is that of
the context element. -/
structure Canvas where
  top : Sheet
  outer : List Sheet := []

namespace Canvas

/-- The innermost open element. -/
def current (c : Canvas) : Element := c.top.element

/-- Adds a writing to the contents of the innermost open element. -/
def add (c : Canvas) (t : Text) : Canvas := { c with top := c.top.add t }

/-- Opens an element. -/
def enter (c : Canvas) (e : Element) : Canvas := { top := ⟨e, []⟩, outer := c.top :: c.outer }

end Canvas

namespace Serializer

variable {m : Type → Type} [Monad m]

/-- Writes what happens in one event. Closing the context element does nothing. -/
def step (z : Serializer m) (c : Canvas) : Event → m Canvas
  | .text t => return c.add (← z.text c.current t)
  | .comment t => return c.add (← z.comment c.current t)
  | .leaf e => return c.add (← z.element c.current e [])
  | .enter e => pure (c.enter e)
  | .leave =>
    match c.outer with
    | [] => pure c
    | parent :: outer => do
      let t ← z.element parent.element c.top.element c.top.contents
      return { top := parent.add t, outer }
  | .notice n => do
    z.notice n
    return c

/-- Writes what happens in several events. -/
def steps (z : Serializer m) (c : Canvas) (events : List Event) : m Canvas :=
  events.foldlM z.step c

/-- Writes a fragment from its events, as the contents of the context element. -/
def run (z : Serializer m) (context : Element) (events : List Event) : m Text := do
  let opening ← z.start context
  let c ← z.steps { top := ⟨context, []⟩ } events
  return opening ++ c.top.contents

end Serializer

/-! ### HTML -/

/-- The end tag of a name. -/
def endTagText (name : Text) : Text := "</".toList ++ name ++ ['>']

/-- An attribute after a start tag's name: a space, the name, and the escaped value in quotes. -/
def attributeText (name value : Text) : Text :=
  ' ' :: name ++ "=\"".toList ++ escapeAttribute value ++ ['"']

/-- The attributes of a start tag, in order. -/
def attributesText (as : Attributes) : Text := as.flatMap fun (n, v) => attributeText n v

/-- Text inside an element: as it is where markup is not read, escaped everywhere else. -/
def textIn (parent : Element) (t : Text) : Text := if parent.holdsRawText then t else escapeText t

/-- The contents of an element and its end tag. Void elements have neither. A line feed that would
be dropped after the start tag is written twice. -/
def closing (e : Element) (contents : Text) : Text :=
  if !e.isHtml then contents ++ endTagText e.name
  else if dropsLeadingNewline e.name && contents.head? = some '\n' then
    '\n' :: contents ++ endTagText e.name
  else if isVoid e.name then []
  else contents ++ endTagText e.name

/-- An element around its written contents. -/
def elementText (e : Element) (contents : Text) : Text :=
  '<' :: e.name ++ attributesText e.attributes ++ '>' :: closing e contents

/-- A comment. -/
def commentText (t : Text) : Text := "<!--".toList ++ t ++ "-->".toList

/-- The serializer of HTML, with notices passed on. -/
def Serializer.plain {m : Type → Type} [Monad m] (notice : Notice → m Unit) : Serializer m where
  start _ := pure []
  text parent t := pure (textIn parent t)
  element _ e contents := pure (elementText e contents)
  comment _ t := pure (commentText t)
  notice

end Stencil.Html
