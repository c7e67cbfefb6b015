import Stencil.Css.Escape
import Stencil.Notice
import Stencil.Render.Place
import Stencil.Render.Service
import Stencil.Script.Literal

/-!
# Frames

A frame is the arguments of a render with every value brought into one form. A render builds the
frame of a form when it first needs it, and keeps it.
-/

namespace Stencil.Render

variable {m : Type → Type} [Monad m] {Tree Frame : Type}

/-- A value brought into a form, once it is resolved. -/
def Form.transform (s : Service m Tree Frame) : Form → Text → m Text
  | .markup, t => s.reprocess t
  | .script, t => pure (Script.literal t)
  | .style, t => pure (Css.escapeValue t)
  | .plain, t => pure t

/-- What a log is told when a frame is built. -/
def frameNotice (form : Form) (count : Nat) : Notice :=
  ⟨.trace, "html_templates",
    "building ".toList ++ form.label.toList ++ " frame over ".toList ++ Nat.toDigits 10 count ++
      " arguments".toList⟩

/-- The arguments with every value in a form: all are resolved first, if the form needs it, and then
all are transformed. -/
def formBindings (s : Service m Tree Frame) (form : Form) (b : Bindings) : m Bindings := do
  let b ← if form.resolvesText then b.mapValuesM fun v => do s.decode (← s.resolve v) else pure b
  b.mapValuesM (form.transform s)

/-- Builds the frame of a form. -/
def buildFrame (s : Service m Tree Frame) (notice : Notice → m Unit) (form : Form) : m Frame := do
  let b ← s.bindings
  notice (frameNotice form b.size)
  s.frame (← formBindings s form b)

/-- The frames built so far. -/
structure Frames (Frame : Type) where
  frame? : Form → Option Frame := fun _ => none

namespace Frames

/-- The frames with that of one form added. -/
def insert (fs : Frames Frame) (form : Form) (f : Frame) : Frames Frame :=
  ⟨fun g => if g = form then some f else fs.frame? g⟩

/-- The forms whose frames are built. -/
def built (fs : Frames Frame) : List Form := Form.all.filter fun form => (fs.frame? form).isSome

end Frames

end Stencil.Render
