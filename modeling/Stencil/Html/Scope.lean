import Stencil.Html.Element

/-!
# Scopes

Which open element a tag may close. The open elements are searched from the innermost
outwards, and each kind of scope names the elements that end the search.
-/

namespace Stencil.Html

/-- A rule for where the search for an open element ends. -/
inductive Scope where
  | general
  | button
  | listItem
  | table
  deriving DecidableEq, Repr

namespace Scope

/-- The HTML elements that end a search in any scope but that of tables. -/
def boundaryNames : List Text :=
  ["applet", "caption", "html", "table", "td", "th", "marquee", "object", "template"].map
    String.toList

/-- The HTML elements that end a search in table scope. -/
def tableBoundaryNames : List Text := ["html", "table", "template"].map String.toList

/-- Whether the search in a scope ends at an element. Foreign elements end it where their contents
are HTML, except in table scope. -/
def endsAt (s : Scope) (e : Element) : Bool :=
  if e.isHtml then
    match s with
    | .general => e.name ∈ boundaryNames
    | .button => e.name ∈ boundaryNames || e.name = "button".toList
    | .listItem => e.name ∈ boundaryNames || e.name = "ol".toList || e.name = "ul".toList
    | .table => e.name ∈ tableBoundaryNames
  else s ≠ .table && e.isIntegrationPoint

/-- How many of the open elements, innermost first, are to be closed for the nearest HTML element
that matches to be closed too; nothing if the scope ends before one. -/
def depth? (s : Scope) (matching : Element → Bool) : List Element → Option Nat
  | [] => none
  | e :: outer =>
    if e.isHtml && matching e then some 1
    else if s.endsAt e then none
    else (depth? s matching outer).map (· + 1)

/-- Whether an element that matches is in scope. -/
def holds (s : Scope) (matching : Element → Bool) (open_ : List Element) : Bool :=
  (s.depth? matching open_).isSome

end Scope

/-- How many of the open elements are to be closed for the nearest foreign element of a name, in
any case, to be closed too; nothing if an HTML element comes before one. -/
def foreignDepth? (name : Text) : List Element → Option Nat
  | [] => none
  | e :: outer =>
    if e.isHtml then none
    else if Ascii.sameName e.name name then some 1
    else (foreignDepth? name outer).map (· + 1)

end Stencil.Html
