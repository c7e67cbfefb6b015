import Stencil.Bindings
import Stencil.Text.Space

/-!
# Templates

A template is text with placeholders in it. A placeholder has a name, and may have a fallback
for a name that is not bound; both are templates themselves, so a name can be computed.
`expand` fills the placeholders in, `source` writes the template out again.
-/

namespace Stencil

/-- A sequence of text and placeholders. -/
inductive Template where
  | nil
  | text (t : Text) (rest : Template)
  /-- A placeholder without a fallback. -/
  | slot (name rest : Template)
  /-- A placeholder with a fallback. -/
  | slotOr (name fallback rest : Template)
  deriving DecidableEq, Repr, Inhabited

namespace Template

/-- The three braces that open a placeholder. -/
def opening : Text := "\x7b\x7b\x7b".toList

/-- The three braces that close a placeholder. -/
def closing : Text := "\x7d\x7d\x7d".toList

/-- The template of a text. -/
def ofText (t : Text) : Template := if t = [] then .nil else .text t .nil

/-- One template after another, with text that meets made one. -/
def join : Template → Template → Template
  | .nil, b => b
  | .text s .nil, .text t rest => .text (s ++ t) rest
  | .text s rest, b => .text s (join rest b)
  | .slot name rest, b => .slot name (join rest b)
  | .slotOr name fallback rest, b => .slotOr name fallback (join rest b)

/-- The template written out. -/
def source : Template → Text
  | .nil => []
  | .text t rest => t ++ source rest
  | .slot name rest => opening ++ source name ++ closing ++ source rest
  | .slotOr name fallback rest =>
    opening ++ source name ++ '|' :: source fallback ++ closing ++ source rest

/-- How deep placeholders are nested in names and fallbacks. -/
def depth : Template → Nat
  | .nil => 0
  | .text _ rest => depth rest
  | .slot name rest => max (depth name + 1) (depth rest)
  | .slotOr name fallback rest => max (max (depth name) (depth fallback) + 1) (depth rest)

/-- The template with its placeholders filled in. A placeholder whose name, without the space
around it, is not bound gives its fallback, or itself if it has none. -/
def expand (b : Bindings) : Template → Text
  | .nil => []
  | .text t rest => t ++ expand b rest
  | .slot name rest =>
    let raw := expand b name
    (b.get? (Text.trim raw)).getD (opening ++ raw ++ closing) ++ expand b rest
  | .slotOr name fallback rest =>
    (b.get? (Text.trim (expand b name))).getD (expand b fallback) ++ expand b rest

end Template

end Stencil
