import Stencil.Text.Basic

/-!
# Samples

Fragments of any size for measuring: many ordinary blocks, and a script body made of what almost
is a close tag.
-/

namespace Stencil.Html.Sample

/-- One ordinary block. -/
def block : Text :=
  "<div class=box><span>hello</span><img src=x><p>a &amp; b</div>".toList

/-- Several blocks. -/
def blocks (n : Nat) : Text := (List.replicate n block).flatten

/-- The start of the script body. -/
def scriptStart : Text := "<script>".toList

/-- What almost is a close tag. -/
def nearMiss : Text := "</scri<pt".toList

/-- A script whose start tag and body have at least `n` characters, and no more of its body than
that takes. -/
def nearMisses (n : Nat) : Text :=
  let count := (n - scriptStart.length + nearMiss.length - 1) / nearMiss.length
  scriptStart ++ (List.replicate count nearMiss).flatten ++ "</script>".toList

end Stencil.Html.Sample
