import Stencil.Html.Trace

/-!
# Forests

The events of a fragment tell a forest: the children of the context element, each element with its
own. `Forest.ofEvents` reads the forest off the events from the last to the first, and
`Serializer.run_eq_fold` says that a serializer which tells nobody of notices writes a fragment by
a fold over its forest: every element after its children, with what was written for them.
-/

namespace Stencil.Html

/-- Whether this is an HTML element without contents and without an end tag. -/
def Element.isVoid (e : Element) : Bool := e.isHtml && Html.isVoid e.name

/-- The children of an element in order, each element with its own children. -/
inductive Forest where
  | nil
  | text (content : Text) (rest : Forest)
  | comment (content : Text) (rest : Forest)
  | element (e : Element) (children rest : Forest)
  deriving DecidableEq, Repr, Inhabited

namespace Forest

/-- What the events that are left tell: the rest of the innermost open element, and the rests of
those around it. An element that is never closed ends with the events. -/
def remaining : List Event → Forest × List Forest
  | [] => (.nil, [])
  | .text t :: events =>
    let (f, outer) := remaining events
    (.text t f, outer)
  | .comment t :: events =>
    let (f, outer) := remaining events
    (.comment t f, outer)
  | .leaf e :: events =>
    let (f, outer) := remaining events
    (.element e .nil f, outer)
  | .enter e :: events =>
    match remaining events with
    | (children, f :: outer) => (.element e children f, outer)
    | (children, []) => (.element e children .nil, [])
  | .leave :: events =>
    let (f, outer) := remaining events
    (.nil, f :: outer)
  | .notice _ :: events => remaining events

/-- The forest that events tell. -/
def ofEvents (events : List Event) : Forest := (remaining events).1

/-- The events that tell a forest. -/
def events : Forest → List Event
  | .nil => []
  | .text t rest => .text t :: events rest
  | .comment t rest => .comment t :: events rest
  | .element e children rest =>
    if e.isVoid = true ∧ children = .nil then .leaf e :: events rest
    else .enter e :: (events children ++ .leave :: events rest)

end Forest

/-- Whether the events close as many elements as they open and `depth` more, and never one that is
not open. -/
def Event.close : Nat → List Event → Bool
  | depth, [] => depth = 0
  | depth, .enter _ :: events => Event.close (depth + 1) events
  | 0, .leave :: _ => false
  | depth + 1, .leave :: events => Event.close depth events
  | depth, _ :: events => Event.close depth events

/-! ## Writing a forest -/

namespace Serializer

variable {m : Type → Type} [Monad m]

/-- The serializer with its notices dropped. -/
def quiet (z : Serializer m) : Serializer m := { z with notice := fun _ => pure () }

/-- Writes a forest inside an element: every element after its children, which are written inside
it. -/
def fold (z : Serializer m) (parent : Element) : Forest → m Text
  | .nil => pure []
  | .text t rest => do
    let w ← z.text parent t
    return w ++ (← z.fold parent rest)
  | .comment t rest => do
    let w ← z.comment parent t
    return w ++ (← z.fold parent rest)
  | .element e children rest => do
    let contents ← z.fold e children
    let w ← z.element parent e contents
    return w ++ (← z.fold parent rest)

/-- Writes the rests of the open elements: that of the innermost, then the element itself, then the
rest of the one around it. -/
def settle (z : Serializer m) : Sheet → List Sheet → Forest → List Forest → m Text
  | top, parent :: outer, f, g :: rests => do
    let t ← z.fold top.element f
    let w ← z.element parent.element top.element (top.contents ++ t)
    z.settle (parent.add w) outer g rests
  | top, _, f, _ => do
    let t ← z.fold top.element f
    return top.contents ++ t

end Serializer

/-! ## What events tell -/

namespace Event

variable (depth : Nat) (es : List Event)

theorem close_text (t : Text) : Event.close depth (.text t :: es) = Event.close depth es := by
  cases depth <;> rfl

theorem close_comment (t : Text) :
    Event.close depth (.comment t :: es) = Event.close depth es := by
  cases depth <;> rfl

theorem close_leaf (e : Element) : Event.close depth (.leaf e :: es) = Event.close depth es := by
  cases depth <;> rfl

theorem close_notice (n : Notice) :
    Event.close depth (.notice n :: es) = Event.close depth es := by
  cases depth <;> rfl

end Event

namespace Forest

/-- Events that close what is open tell one rest for every open element. -/
theorem length_remaining {depth : Nat} {es : List Event} (h : Event.close depth es = true) :
    (remaining es).2.length = depth := by
  fun_induction Event.close depth es with
  | case1 depth => simpa [remaining, eq_comm] using h
  | case2 depth e es ih =>
    have hlen := ih h
    rcases hr : remaining es with ⟨f, _ | ⟨g, outer⟩⟩
    · simp [hr] at hlen
    · simpa [remaining, hr] using hlen
  | case3 => cases h
  | case4 depth es ih => simp [remaining, ih h]
  | case5 depth e es henter hleave hleave' ih =>
    have hlen := ih h
    cases e with
    | enter e => exact absurd rfl (henter e)
    | leave =>
      cases depth with
      | zero => exact (hleave rfl rfl).elim
      | succ n => exact (hleave' n rfl rfl).elim
    | _ => simpa [remaining] using hlen

end Forest

/-! ## Events are written as the forest that they tell -/

namespace Serializer

variable {m : Type → Type} [Monad m] [LawfulMonad m]

theorem settle_text (z : Serializer m) (top : Sheet) (outer : List Sheet) (t : Text) (f : Forest)
    (rests : List Forest) :
    z.settle top outer (.text t f) rests = (do
      let w ← z.text top.element t
      z.settle (top.add w) outer f rests) := by
  cases outer <;> cases rests <;> simp [settle, fold, Sheet.add, Sheet.contents]

theorem settle_comment (z : Serializer m) (top : Sheet) (outer : List Sheet) (t : Text) (f : Forest)
    (rests : List Forest) :
    z.settle top outer (.comment t f) rests = (do
      let w ← z.comment top.element t
      z.settle (top.add w) outer f rests) := by
  cases outer <;> cases rests <;> simp [settle, fold, Sheet.add, Sheet.contents]

theorem settle_element (z : Serializer m) (top : Sheet) (outer : List Sheet) (e : Element)
    (children f : Forest) (rests : List Forest) :
    z.settle top outer (.element e children f) rests = (do
      let contents ← z.fold e children
      let w ← z.element top.element e contents
      z.settle (top.add w) outer f rests) := by
  cases outer <;> cases rests <;> simp [settle, fold, Sheet.add, Sheet.contents]

/-- Writing events that close what is open writes what they tell. -/
theorem contents_steps (z : Serializer m) {events : List Event} (c : Canvas)
    (h : Event.close c.outer.length events = true) :
    (fun d => d.top.contents) <$> z.quiet.steps c events =
      z.quiet.settle c.top c.outer (Forest.remaining events).1 (Forest.remaining events).2 := by
  induction events generalizing c with
  | nil =>
    obtain ⟨top, outer⟩ := c
    have hnil : outer = [] := by simpa [Event.close] using h
    subst hnil
    simp [steps, settle, fold, Forest.remaining]
  | cons event events ih =>
    have hstep : z.quiet.steps c (event :: events) = (do
        let d ← z.quiet.step c event
        z.quiet.steps d events) := by
      simp [steps]
    rw [hstep, map_bind]
    cases event with
    | text t =>
      have hrest (w : Text) := ih (c.add w) (by simpa [Event.close, Canvas.add] using h)
      simp only [step, bind_assoc, pure_bind, hrest, Forest.remaining, settle_text]
      rfl
    | comment t =>
      have hrest (w : Text) := ih (c.add w) (by simpa [Event.close, Canvas.add] using h)
      simp only [step, bind_assoc, pure_bind, hrest, Forest.remaining, settle_comment]
      rfl
    | leaf e =>
      have hrest (w : Text) := ih (c.add w) (by simpa [Event.close, Canvas.add] using h)
      simp only [step, bind_assoc, pure_bind, hrest, Forest.remaining, settle_element, fold]
      rfl
    | enter e =>
      have hclose : Event.close (c.enter e).outer.length events = true := by
        simpa [Event.close, Canvas.enter] using h
      have hlen := Forest.length_remaining hclose
      simp only [step, pure_bind, ih _ hclose]
      rcases hr : Forest.remaining events with ⟨children, _ | ⟨f, rests⟩⟩
      · simp [hr, Canvas.enter] at hlen
      · simp [Forest.remaining, hr, settle_element, settle, Canvas.enter, Sheet.contents]
    | leave =>
      obtain ⟨top, _ | ⟨parent, outer⟩⟩ := c
      · simp [Event.close] at h
      · have hrest (w : Text) := ih { top := parent.add w, outer } (by simpa [Event.close] using h)
        simp only [step, bind_assoc, pure_bind, hrest, Forest.remaining, settle, fold,
          List.append_nil]
    | notice n =>
      have hrest := ih c (by simpa [Event.close] using h)
      simp only [step, quiet, bind_pure_comp] at hrest ⊢
      simpa [Forest.remaining, quiet] using hrest

/-- **A quiet serializer writes a fragment by a fold over its forest.** -/
theorem run_eq_fold (z : Serializer m) (context : Element) {events : List Event}
    (h : Event.close 0 events = true) :
    z.quiet.run context events = do
      let opening ← z.start context
      let t ← z.quiet.fold context (Forest.ofEvents events)
      return opening ++ t := by
  have hlen := Forest.length_remaining h
  have hsteps := contents_steps z { top := ⟨context, []⟩ } h
  rw [List.length_eq_zero_iff.1 hlen] at hsteps
  have hrun : z.quiet.run context events = do
      let opening ← z.start context
      let t ← (fun d => d.top.contents) <$> z.quiet.steps { top := ⟨context, []⟩ } events
      return opening ++ t := by
    simp [run, quiet]
  rw [hrun, hsteps]
  simp [settle, Sheet.contents, Forest.ofEvents]

end Serializer

end Stencil.Html
