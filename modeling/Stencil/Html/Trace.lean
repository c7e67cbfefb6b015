import Stencil.Html.Serializer

/-!
# Traces

What a serializer is asked to write, as data. `Serializer.traced` keeps a trace beside the
writing of any serializer, and `Serializer.outline` writes the nesting alone.
-/

namespace Stencil.Html

/-- A request to a serializer. -/
inductive Call where
  | start (context : Element)
  | text (parent : Element) (content : Text)
  | element (parent : Element) (e : Element) (contents : Text)
  | comment (parent : Element) (content : Text)
  deriving DecidableEq, Repr

namespace Serializer

variable {m : Type → Type} [Monad m]

/-- A serializer that also records, in order, what it is asked to write. -/
def traced (z : Serializer m) : Serializer (StateT (List Call) m) where
  start context := do
    modify (· ++ [.start context])
    z.start context
  text parent t := do
    modify (· ++ [.text parent t])
    z.text parent t
  element parent e contents := do
    modify (· ++ [.element parent e contents])
    z.element parent e contents
  comment parent t := do
    modify (· ++ [.comment parent t])
    z.comment parent t
  notice n := z.notice n

/-- The nesting of a fragment: text is written as it is, an element as its name and contents in
parentheses, a comment as an exclamation mark. -/
def outline (notice : Notice → m Unit) : Serializer m where
  start _ := pure ['^']
  text _ t := pure t
  element _ e contents := pure ('(' :: e.name ++ ':' :: contents ++ [')'])
  comment _ _ := pure ['!']
  notice

end Serializer

end Stencil.Html
