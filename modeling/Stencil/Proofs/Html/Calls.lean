import Stencil.Proofs.Html.Steps

/-!
# Calls

What a serializer is asked to write is decided by the events alone: `Event.calls` reads the
requests off the events, and `bare_calls` says that any stateful serializer gets these requests,
whatever it writes and whatever its state, but for the written contents that an element comes with.
-/

namespace Stencil.Html

/-- The request without the written contents of its element. -/
def Call.bare : Call → Call
  | .element parent e _ => .element parent e []
  | c => c

/-- The requests that events make inside an element and the elements around it. -/
def Event.calls : Element → List Element → List Event → List Call
  | _, _, [] => []
  | e, outer, .text t :: es => .text e t :: Event.calls e outer es
  | e, outer, .comment t :: es => .comment e t :: Event.calls e outer es
  | e, outer, .leaf d :: es => .element e d [] :: Event.calls e outer es
  | e, outer, .enter d :: es => Event.calls d (e :: outer) es
  | e, [], .leave :: es => Event.calls e [] es
  | e, parent :: outer, .leave :: es => .element parent e [] :: Event.calls parent outer es
  | e, outer, .notice _ :: es => Event.calls e outer es

namespace Serializer

variable {σ : Type}

/-- What a stateful serializer is asked to write, in order. -/
def calls (z : Serializer (StateM σ)) (context : Element) (events : List Event) (s : σ) :
    List Call :=
  (((z.traced.run context events).run []).run s).1.2

/-- The elements whose contents are being written, the innermost first. -/
def path (c : Canvas) : List Element := c.outer.map Sheet.element

theorem run_bind {α β : Type} (x : StateT (List Call) (StateM σ) α)
    (f : α → StateT (List Call) (StateM σ) β) (log : List Call) (s : σ) :
    ((x >>= f).run log).run s =
      ((f ((x.run log).run s).1.1).run ((x.run log).run s).1.2).run ((x.run log).run s).2 := rfl

/-- Writing events makes their requests. -/
theorem bare_steps (z : Serializer (StateM σ)) (c : Canvas) (events : List Event) (log : List Call)
    (s : σ) : (((z.traced.steps c events).run log).run s).1.2.map Call.bare =
      log.map Call.bare ++ Event.calls c.current (path c) events := by
  induction events generalizing c log s with
  | nil =>
    rw [Event.calls, List.append_nil]
    rfl
  | cons event events ih =>
    have hsteps : z.traced.steps c (event :: events) =
        z.traced.step c event >>= fun d => z.traced.steps d events := rfl
    rw [hsteps, run_bind, ih]
    cases event with
    | text t =>
      change (log ++ [Call.text c.current t]).map Call.bare ++ _ = _
      rw [List.map_append, List.append_assoc]
      rfl
    | comment t =>
      change (log ++ [Call.comment c.current t]).map Call.bare ++ _ = _
      rw [List.map_append, List.append_assoc]
      rfl
    | leaf e =>
      change (log ++ [Call.element c.current e []]).map Call.bare ++ _ = _
      rw [List.map_append, List.append_assoc]
      rfl
    | enter e => rfl
    | leave =>
      obtain ⟨top, _ | ⟨parent, outer⟩⟩ := c
      · rfl
      · change (log ++ [Call.element parent.element top.element top.contents]).map Call.bare ++ _ =
          _
        rw [List.map_append, List.append_assoc]
        rfl
    | notice n => rfl

/-- **A serializer is asked what the events say.** -/
theorem bare_calls (z : Serializer (StateM σ)) (context : Element) (events : List Event) (s : σ) :
    (z.calls context events s).map Call.bare =
      .start context :: Event.calls context [] events := by
  have hrun : z.traced.run context events = z.traced.start context >>= fun opening =>
      z.traced.steps { top := ⟨context, []⟩ } events >>= fun c =>
        pure (opening ++ c.top.contents) := rfl
  rw [calls, hrun, run_bind, run_bind]
  exact bare_steps z { top := ⟨context, []⟩ } events _ _

end Serializer

end Stencil.Html
