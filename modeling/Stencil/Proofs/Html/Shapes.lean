import Stencil.Proofs.Html.Calls
import Stencil.Proofs.Html.Rewrite

/-!
# Shapes

The shape of a fragment is what a serializer is asked to write apart from texts and the values of
attributes: which elements with which attributes, and which comments, inside which elements. The
shape of what is read of a source depends on its outline alone (`shapes_reread`), so two
rewritings that differ in texts and values only are read with one shape (`outline_rewrite`).
-/

namespace Stencil.Html

/-- The element without the values of its attributes. -/
def Element.bare (e : Element) : Element :=
  { e with attributes := e.attributes.map fun a => (a.1, []) }

/-- The shape of a request: nothing of texts, and neither values nor contents of elements. -/
def Call.shape? : Call → Option Call
  | .start _ => none
  | .text _ _ => none
  | .element parent e _ => some (.element parent.bare e.bare [])
  | .comment parent t => some (.comment parent.bare t)

def Event.shape? : Event → Option Event
  | .text _ => none
  | .comment t => some (.comment t)
  | .leaf e => some (.leaf e.bare)
  | .enter e => some (.enter e.bare)
  | .leave => some .leave
  | .notice _ => none

/-- A forest without texts and values. -/
def Forest.outline : Forest → Forest
  | .nil => .nil
  | .text _ rest => outline rest
  | .comment t rest => .comment t (outline rest)
  | .element e children rest => .element e.bare (outline children) (outline rest)

/-! ## Requests -/

theorem shapes_calls (e : Element) (outer : List Element) (es : List Event) :
    (Event.calls e outer es).filterMap Call.shape? =
      Event.calls e.bare (outer.map Element.bare) (es.filterMap Event.shape?) := by
  induction es generalizing e outer with
  | nil => rfl
  | cons event es ih =>
    cases event with
    | text t => exact ih e outer
    | comment t => exact congrArg (Call.comment e.bare t :: ·) (ih e outer)
    | leaf d => exact congrArg (Call.element e.bare d.bare [] :: ·) (ih e outer)
    | enter d => exact ih d (e :: outer)
    | leave =>
      cases outer with
      | nil => exact ih e []
      | cons parent outer =>
        exact congrArg (Call.element parent.bare e.bare [] :: ·) (ih parent outer)
    | notice n => exact ih e outer

theorem Serializer.shapes_calls {σ : Type} (z : Serializer (StateM σ)) (context : Element)
    (events : List Event) (s : σ) : (z.calls context events s).filterMap Call.shape? =
      Event.calls context.bare [] (events.filterMap Event.shape?) := by
  have hbare (cs : List Call) : (cs.map Call.bare).filterMap Call.shape? =
      cs.filterMap Call.shape? := by
    rw [List.filterMap_map]
    congr 1
    funext c
    cases c <;> rfl
  rw [← hbare, z.bare_calls]
  exact Html.shapes_calls context [] events

/-! ## Outlines -/

theorem shapes_ofText (t : Text) : (Event.ofText t).filterMap Event.shape? = [] := by
  unfold Event.ofText
  split
  · rfl
  · rfl

/-- **What is read of a source has the shape of the outline.** -/
theorem shapes_reread (context : Element) (G : Forest) {S S' : List Element} {after after' : Text}
    {es es' : List Event} (hS : S.length = S'.length)
    (hes : es.filterMap Event.shape? = es'.filterMap Event.shape?) :
    (G.reread context S after es).filterMap Event.shape? =
      (G.outline.reread context S' after' es').filterMap Event.shape? := by
  induction G generalizing S S' after after' es es' with
  | nil => exact hes
  | text t rest ih => exact ih hS hes
  | comment t rest ih => exact congrArg (Event.comment t :: ·) (ih hS hes)
  | element e children rest ihc ih =>
    have hbare : e.bare.bare = e.bare := by
      rw [Element.bare, Element.bare, List.map_map]
      rfl
    have hleaves :
        ((e :: S).map fun _ => Event.leave) = (e.bare :: S').map fun _ => Event.leave := by
      rw [List.map_const', List.map_const', List.length_cons, List.length_cons, hS]
    rw [Forest.outline, Forest.reread, Forest.reread,
      show e.bare.isPlaintext = e.isPlaintext from rfl, show e.bare.isVoid = e.isVoid from rfl]
    split
    · -- All that follows is text, so nothing is left but the ends of the open elements.
      change Event.enter e.bare :: _ = Event.enter e.bare.bare :: _
      rw [hbare, List.filterMap_append, List.filterMap_append, shapes_ofText, shapes_ofText,
        hleaves]
    · split
      · change Event.leaf e.bare :: _ = Event.leaf e.bare.bare :: _
        rw [hbare, ih hS hes]
      · change Event.enter e.bare :: _ = Event.enter e.bare.bare :: _
        rw [hbare]
        refine congrArg (Event.enter e.bare :: ·) (ihc (congrArg (· + 1) hS) ?_)
        exact congrArg (Event.leave :: ·) (ih hS hes)

theorem outline_consText (t : Text) (f : Forest) : (f.consText t).outline = f.outline := by
  unfold Forest.consText
  split
  · rfl
  · split
    · rfl
    · rfl

theorem outline_ofText (t : Text) : (Forest.ofText t).outline = .nil := by
  unfold Forest.ofText
  split
  · rfl
  · rfl

/-- Rewritings that differ in texts and values only have one outline. -/
theorem outline_rewrite {r r' : Rewrite} (hfate : r.fate = r'.fate)
    (hrebuilt : ∀ e, (r.rebuilt e).bare = (r'.rebuilt e).bare) (f : Forest) (parent : Element) :
    (f.rewrite r parent).outline = (f.rewrite r' parent).outline := by
  induction f generalizing parent with
  | nil => rfl
  | text t rest ih =>
    rw [Forest.rewrite, Forest.rewrite, outline_consText, outline_consText]
    exact ih parent
  | comment t rest ih => exact congrArg (Forest.comment t) (ih parent)
  | element e children rest ihc ih =>
    rw [Forest.rewrite, Forest.rewrite, hfate]
    cases r'.fate e with
    | dropped => exact ih parent
    | kept =>
      dsimp only [Forest.outline]
      rw [hrebuilt, ihc, ih]
    | flattened =>
      dsimp only [Forest.outline]
      rw [hrebuilt, outline_ofText, outline_ofText, ih]

end Stencil.Html
