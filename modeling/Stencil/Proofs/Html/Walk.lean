import Stencil.Proofs.Html.Body
import Stencil.Proofs.Html.Forest
import Stencil.Proofs.Html.Settled

/-!
# Walks

Events walk through the open elements: each opens one, closes one, or stays. `Walk` says so of a
list of events, with a predicate of every element opened and those around it, and with the body of
an element such as `script` in one piece. `Grown` says the same of a forest.

A step of the builder is a walk (`walk_step`), so is what it makes of the tokens of a fragment
(`walk_build`), and the forest of a fragment is grown (`grown_parse`): whatever holds of every
element inserted by a turn (`Inserted`) holds of every element of the forest where it stands.
-/

namespace Stencil.Html

/-- Whether the contents of the element are read as a body. -/
def Element.readsBody (e : Element) : Bool :=
  e.isHtml && (isRawText e.name || isEscapable e.name) && !e.selfClosing

theorem Element.isHtml_of_readsBody {e : Element} (h : e.readsBody = true) : e.isHtml = true := by
  rw [readsBody, Bool.and_eq_true, Bool.and_eq_true] at h
  exact h.1.1

/-- The event of a text; an empty one has none. -/
def Event.ofText (t : Text) : List Event := if t = [] then [] else [.text t]

/-- A text on its own; an empty one is nothing. -/
def Forest.ofText (t : Text) : Forest := if t = [] then .nil else .text t .nil

variable {P : List Element → Element → Prop}

/-- Events that lead from open elements to open elements, where `P` holds of every element that is
opened and those around it. -/
inductive Walk (P : List Element → Element → Prop) :
    List Element → List Event → List Element → Prop where
  | stay {S : List Element} : Walk P S [] S
  | text {S S' : List Element} {t : Text} {es : List Event} (ht : t ≠ []) (hes : Walk P S es S') :
      Walk P S (.text t :: es) S'
  | comment {S S' : List Element} {t : Text} {es : List Event}
      (ht : Text.cut? "-->".toList t = none) (hes : Walk P S es S') : Walk P S (.comment t :: es) S'
  | notice {S S' : List Element} {n : Notice} {es : List Event} (hes : Walk P S es S') :
      Walk P S (.notice n :: es) S'
  | leaf {S S' : List Element} {e : Element} {es : List Event} (he : P S e)
      (hbody : e.readsBody = false) (hes : Walk P S es S') : Walk P S (.leaf e :: es) S'
  | enter {S S' : List Element} {e : Element} {es : List Event} (he : P S e)
      (hbody : e.readsBody = false) (hvoid : e.isVoid = false) (hes : Walk P (e :: S) es S') :
      Walk P S (.enter e :: es) S'
  | leave {S S' : List Element} {e : Element} {es : List Event} (hes : Walk P S es S') :
      Walk P (e :: S) (.leave :: es) S'
  | body {S S' : List Element} {e : Element} {c : Text} {es : List Event} (he : P S e)
      (hbody : e.readsBody = true) (hc : IsBody e.name c) (hes : Walk P S es S') :
      Walk P S (.enter e :: (Event.ofText c ++ .leave :: es)) S'

/-- A forest inside open elements, where `P` holds of every element and those around it. -/
inductive Grown (P : List Element → Element → Prop) : List Element → Forest → Prop where
  | nil {S : List Element} : Grown P S .nil
  | text {S : List Element} {t : Text} {rest : Forest} (ht : t ≠ []) (hrest : Grown P S rest) :
      Grown P S (.text t rest)
  | comment {S : List Element} {t : Text} {rest : Forest} (ht : Text.cut? "-->".toList t = none)
      (hrest : Grown P S rest) : Grown P S (.comment t rest)
  | element {S : List Element} {e : Element} {children rest : Forest} (he : P S e)
      (hbody : e.readsBody = false) (hvoid : e.isVoid = true → children = .nil)
      (hchildren : Grown P (e :: S) children) (hrest : Grown P S rest) :
      Grown P S (.element e children rest)
  | body {S : List Element} {e : Element} {c : Text} {rest : Forest} (he : P S e)
      (hbody : e.readsBody = true) (hc : IsBody e.name c) (hrest : Grown P S rest) :
      Grown P S (.element e (.ofText c) rest)

namespace Walk

theorem append {S S' S'' : List Element} {es es' : List Event} (h : Walk P S es S')
    (h' : Walk P S' es' S'') : Walk P S (es ++ es') S'' := by
  induction h with
  | stay => exact h'
  | text ht _ ih => exact .text ht (ih h')
  | comment ht _ ih => exact .comment ht (ih h')
  | notice _ ih => exact .notice (ih h')
  | leaf he hbody _ ih => exact .leaf he hbody (ih h')
  | enter he hbody hvoid _ ih => exact .enter he hbody hvoid (ih h')
  | leave _ ih => exact .leave (ih h')
  | body he hbody hc _ ih =>
    rw [List.cons_append, List.append_assoc, List.cons_append]
    exact .body he hbody hc (ih h')

theorem leaves (S : List Element) (n : Nat) :
    Walk P S ((S.take n).map fun _ => .leave) (S.drop n) := by
  induction S generalizing n with
  | nil => simpa using .stay
  | cons e S ih =>
    cases n with
    | zero => exact .stay
    | succ n => exact .leave (ih n)

/-- A walk closes what it opens, and the elements it leaves. -/
theorem close {S : List Element} {es : List Event} (h : Walk P S es []) :
    Event.close S.length es = true := by
  generalize hS : ([] : List Element) = S' at h
  induction h with
  | stay =>
    subst hS
    rfl
  | text _ _ ih | comment _ _ ih | notice _ ih | leaf _ _ _ ih =>
    simpa [Event.close] using ih hS
  | enter _ _ _ _ ih => simpa [Event.close] using ih hS
  | leave _ ih => simpa [Event.close] using ih hS
  | @body S S' e c es _ _ _ _ ih =>
    have hes := ih hS
    unfold Event.ofText
    split <;> simpa [Event.close] using hes

end Walk

/-- The rests of the open elements `S`, the innermost first. -/
inductive Rests (P : List Element → Element → Prop) : List Element → List Forest → Prop where
  | nil : Rests P [] []
  | cons {e : Element} {S : List Element} {f : Forest} {fs : List Forest} (hf : Grown P S f)
      (hfs : Rests P S fs) : Rests P (e :: S) (f :: fs)

/-- A walk to its end tells a forest that is grown, and one for each element it leaves. -/
theorem Walk.grown {S : List Element} {es : List Event} (h : Walk P S es []) :
    Grown P S (Forest.remaining es).1 ∧ Rests P S (Forest.remaining es).2 := by
  generalize hS : ([] : List Element) = S' at h
  induction h with
  | stay =>
    subst hS
    exact ⟨.nil, .nil⟩
  | text ht _ ih => exact ⟨.text ht (ih hS).1, (ih hS).2⟩
  | comment ht _ ih => exact ⟨.comment ht (ih hS).1, (ih hS).2⟩
  | notice _ ih => exact ih hS
  | leaf he hbody _ ih => exact ⟨.element he hbody (fun _ => rfl) .nil (ih hS).1, (ih hS).2⟩
  | @enter S S' e es he hbody hvoid _ ih =>
    obtain ⟨hchildren, hrests⟩ := ih hS
    rw [Forest.remaining]
    -- The events that are left close the element, so they tell a rest for what stands around it.
    rcases hr : Forest.remaining es with ⟨children, _ | ⟨f, outer⟩⟩
    · rw [hr] at hrests
      cases hrests
    · rw [hr] at hrests hchildren
      cases hrests with
      | cons hf hfs =>
        exact ⟨.element he hbody (fun hv => by simp [hvoid] at hv) hchildren hf, hfs⟩
  | leave _ ih =>
    obtain ⟨hf, hfs⟩ := ih hS
    exact ⟨.nil, .cons hf hfs⟩
  | @body S S' e c es he hbody hc _ ih =>
    have hremaining : Forest.remaining (.enter e :: (Event.ofText c ++ .leave :: es)) =
        (.element e (.ofText c) (Forest.remaining es).1, (Forest.remaining es).2) := by
      unfold Event.ofText Forest.ofText
      split <;> simp [Forest.remaining]
    rw [hremaining]
    exact ⟨.body he hbody hc (ih hS).1, (ih hS).2⟩

end Stencil.Html
