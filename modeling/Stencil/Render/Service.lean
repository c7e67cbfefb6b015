import Stencil.Html.Escape
import Stencil.Html.Reference
import Stencil.Stash
import Stencil.Template.Parse

/-!
# Expansion services

A render does not read placeholders itself. A service parses marked text and expands it against
a frame of argument values, which the render has brought into the form its place needs. A
service may answer in any monad, so it may keep state, and may start renders of its own.

`Expander.service` is the service of this library: templates over fixed bindings.
-/

namespace Stencil.Render

/-- What a render asks of the arguments of a fragment. -/
structure Service (m : Type → Type) (Tree Frame : Type) where
  parse : Text → m Tree
  /-- Expands a parsed text with the values of a frame. -/
  expand : Tree → Frame → m Text
  /-- A frame of values. -/
  frame : Bindings → m Frame
  /-- The arguments as they were passed. -/
  bindings : m Bindings
  /-- Replaces the markers of stored pieces of text. -/
  resolve : Text → m Text
  /-- Decodes character references. -/
  decode : Text → m Text
  /-- Processes text as block markup. -/
  reprocess : Text → m Text

namespace Service

variable {m : Type → Type} [Monad m]

/-- The service that knows no template: placeholders of bound names are replaced one binding after
another, in the result so far. Its frames are bindings, and its texts are taken as they are. -/
def substituting (b : Bindings) : Service m Text Bindings where
  parse t := pure t
  expand t frame := pure <| frame.entries.foldl (fun acc (name, value) =>
    Text.replaceAll (Template.opening ++ name ++ Template.closing) value acc) t
  frame b := pure b
  bindings := pure b
  resolve t := pure t
  decode t := pure (Html.Reference.decode t)
  reprocess t := pure t

/-- What a service was asked. -/
inductive Call (Tree : Type) where
  | parse (t : Text)
  | expand (tree : Tree)
  | frame (b : Bindings)
  | bindings
  | resolve (t : Text)
  | reprocess (t : Text)

/-- A service that also records, in order, what it is asked; decoding is not recorded. -/
def traced {Tree Frame : Type} (s : Service m Tree Frame) :
    Service (StateT (List (Call Tree)) m) Tree Frame where
  parse t := do
    modify (· ++ [.parse t])
    s.parse t
  expand tree frame := do
    modify (· ++ [.expand tree])
    s.expand tree frame
  frame b := do
    modify (· ++ [.frame b])
    s.frame b
  bindings := do
    modify (· ++ [.bindings])
    s.bindings
  resolve t := do
    modify (· ++ [.resolve t])
    s.resolve t
  decode t := s.decode t
  reprocess t := do
    modify (· ++ [.reprocess t])
    s.reprocess t

end Service

/-- Fixed arguments, stored pieces of text, and a processor of block markup. -/
structure Expander (m : Type → Type) where
  bindings : Bindings := .empty
  stash : Stash := {}
  reprocess : Text → m Text

namespace Expander

variable {m : Type → Type} [Monad m]

/-- The expander whose processor only escapes markup, so that no value can produce any. -/
def escaping (bindings : Bindings) (stash : Stash := {}) : Expander m :=
  { bindings, stash, reprocess := fun t => pure (Html.escapeText t) }

/-- The service of an expander: its frames are bindings. -/
def service (e : Expander m) : Service m Template Bindings where
  parse t := pure (Template.parse t)
  expand tree frame := pure (tree.expand frame)
  frame b := pure b
  bindings := pure e.bindings
  resolve t := pure (e.stash.resolve t)
  decode t := pure (Html.Reference.decode t)
  reprocess := e.reprocess

end Expander

end Stencil.Render
