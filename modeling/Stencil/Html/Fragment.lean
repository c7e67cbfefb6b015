import Stencil.Html.Builder
import Stencil.Html.Scanner
import Stencil.Html.Serializer

/-!
# Fragments

Parsing a fragment as the contents of a context element. The scanner and the builder take
turns: after each token the builder tells the scanner whether the innermost open element is an
HTML element, which decides how the body of a `script` or a `title` is read.
-/

namespace Stencil.Html

/-- The events of the tokens that are left, taken turn by turn. -/
def Builder.consume (b : Builder) (s : Scanner) : List Event :=
  match h : s.next b.current.isHtml with
  | (some t, s') =>
    have : s'.size < s.size := by
      have := Scanner.size_next (show (s.next b.current.isHtml).1 = some t by rw [h])
      rwa [h] at this
    let (b', events) := b.push t
    events ++ b'.consume s'
  | (none, _) => b.finish
termination_by s.size

/-- The events of a fragment parsed as the contents of the context element. -/
def parse (context : Element) (t : Text) : List Event :=
  Builder.consume { context } { rest := t }

/-- The element fragments stand in if nothing else is said. -/
def divElement : Element := { name := "div".toList }

/-- A fragment as HTML writes it, parsed as the contents of a `div`, with notices passed on. -/
def write {m : Type → Type} [Monad m] (notice : Notice → m Unit) (t : Text) : m Text :=
  (Serializer.plain notice).run divElement (parse divElement t)

/-- A fragment as HTML writes it. -/
def serialize (t : Text) : Text := Id.run (write (fun _ => pure ()) t)

end Stencil.Html
