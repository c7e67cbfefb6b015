import Stencil.Text.Ascii
import Stencil.Text.Space

/-!
# Modules

A fragment can ask for script and style modules to be loaded with it. What it asks for is
reported in order; the collected modules hold every name once per kind, where it came first.
-/

namespace Stencil

/-- What kind of module is asked for. -/
inductive ModuleKind where
  | script
  | style
  deriving DecidableEq, Repr, Inhabited

namespace ModuleKind

/-- The kind that the `type` attribute selects: the word `style` a style module, anything else, or
nothing, a script module. -/
def ofType (type : Option Text) : ModuleKind :=
  match type with
  | some t => if Ascii.sameName (Text.trim t) "style".toList then .style else .script
  | none => .script

/-- The kind as a log names it. -/
def label : ModuleKind → String
  | .script => "Script"
  | .style => "Style"

end ModuleKind

/-- A request for one module. -/
structure ModuleRequest where
  kind : ModuleKind
  name : Text
  deriving DecidableEq, Repr

/-- Collected modules, in the order in which they were first asked for. -/
structure Modules where
  scripts : List Text := []
  styles : List Text := []
  deriving DecidableEq, Repr, Inhabited

namespace Modules

/-- Adds a name to a list that does not hold it. -/
def addName (names : List Text) (name : Text) : List Text :=
  if name ∈ names then names else names ++ [name]

/-- Adds the module of one request. -/
def add (ms : Modules) (r : ModuleRequest) : Modules :=
  match r.kind with
  | .script => { ms with scripts := addName ms.scripts r.name }
  | .style => { ms with styles := addName ms.styles r.name }

/-- Adds the modules of several requests, in order. -/
def addAll (ms : Modules) (rs : List ModuleRequest) : Modules := rs.foldl add ms

/-- Whether no module was asked for. -/
def isEmpty (ms : Modules) : Bool := ms.scripts.isEmpty && ms.styles.isEmpty

end Modules

end Stencil
