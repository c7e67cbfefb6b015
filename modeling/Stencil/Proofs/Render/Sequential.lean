import Stencil.Proofs.Html.Calls
import Stencil.Proofs.Render.Runs
import Stencil.Render.Frame

/-!
# Relations between runs

Two programs of one shape do related things if their parts do, as long as the relation allows runs
to be put in sequence (`Sequential`). A relation may also say what both do in order. For serializers
whose parts are related that is what the calls say that are read off the events (`Sequential.run`).
-/

namespace Stencil.Render

variable {n n' : Type → Type} [Monad n] [Monad n'] {W : Type}

/-- A relation between runs that do the same of some kind of thing, and can be put in sequence. -/
structure Sequential (Rel : (α : Type) → List W → n α → n' α → Prop) : Prop where
  pure {α : Type} (a : α) : Rel α [] (pure a) (pure a)
  bind {α β : Type} {ws vs : List W} {x : n α} {x' : n' α} {f : α → n β} {f' : α → n' β} :
    Rel α ws x x' → (∀ a, Rel β vs (f a) (f' a)) → Rel β (ws ++ vs) (x >>= f) (x' >>= f')

/-- Runs that settle can be put in sequence. -/
theorem sequential_settles {σ : Type} (P : σ → Prop) :
    Sequential fun α (_ : List W) (x : StateT σ Id α) (y : Id α) => Settles P x y.run where
  pure := settles_pure
  bind hx hf := hx.bind (hf _)

/-- Runs that keep a property can be put in sequence. -/
theorem sequential_keeps {m : Type → Type} [Monad m] [LawfulMonad m] {σ : Type} (P : σ → Prop) :
    Sequential fun α (_ : List W) (x _ : StateT σ m α) => Keeps P x where
  pure := keeps_pure
  bind := Keeps.bind

namespace Sequential

variable {Rel : (α : Type) → List W → n α → n' α → Prop} (h : Sequential Rel)
include h

theorem bind_nil {α β : Type} {ws : List W} {x : n α} {x' : n' α} {f : α → n β} {f' : α → n' β}
    (hx : Rel α ws x x') (hf : ∀ a, Rel β [] (f a) (f' a)) : Rel β ws (x >>= f) (x' >>= f') := by
  rw [← List.append_nil ws]
  exact h.bind hx hf

/-! ## Arguments in a form -/

section

variable {Tree Tree' Frame Frame' : Type}

theorem mapValuesM {f : Text → n Text} {f' : Text → n' Text}
    (hf : ∀ v, Rel Text [] (f v) (f' v)) (b : Bindings) :
    Rel Bindings [] (b.mapValuesM f) (b.mapValuesM f') := by
  have hentries (es : List (Text × Text)) :
      Rel _ [] (Bindings.mapEntries f es) (Bindings.mapEntries f' es) := by
    induction es with
    | nil => exact h.pure _
    | cons e es ih =>
      exact h.bind_nil (hf e.2) fun w => h.bind_nil ih fun fs => h.pure _
  exact h.bind_nil (hentries b.entries) fun fs => h.pure _

theorem formBindings {s : Service n Tree Frame} {s' : Service n' Tree' Frame'}
    (hresolve : ∀ t, Rel Text [] (s.resolve t) (s'.resolve t))
    (hdecode : ∀ t, Rel Text [] (s.decode t) (s'.decode t))
    (hreprocess : ∀ t, Rel Text [] (s.reprocess t) (s'.reprocess t)) (form : Form) (b : Bindings) :
    Rel Bindings [] (formBindings s form b) (formBindings s' form b) := by
  have htransform (v : Text) : Rel Text [] (form.transform s v) (form.transform s' v) := by
    cases form with
    | markup => exact hreprocess v
    | script | style | plain => exact h.pure _
  unfold Render.formBindings
  cases form.resolvesText with
  | false => exact h.bind_nil (h.pure b) (h.mapValuesM htransform)
  | true =>
    rw [if_pos rfl, if_pos rfl]
    refine h.bind_nil (h.mapValuesM (fun v => ?_) b) (h.mapValuesM htransform)
    exact h.bind_nil (hresolve v) hdecode

end

/-! ## Lists and serializers -/

variable [LawfulMonad n] [LawfulMonad n']

theorem mapM {α β : Type} {f : α → n β} {f' : α → n' β} {w : α → List W}
    (hf : ∀ a, Rel β (w a) (f a) (f' a)) (as : List α) :
    Rel (List β) (as.flatMap w) (as.mapM f) (as.mapM f') := by
  induction as with
  | nil => exact h.pure []
  | cons a as ih =>
    rw [List.flatMap_cons, List.mapM_cons, List.mapM_cons]
    exact h.bind (hf a) fun b => h.bind_nil ih fun bs => h.pure (b :: bs)

variable (z : Html.Serializer n) (z' : Html.Serializer n') (w : Html.Call → List W)
  (htext : ∀ e t, Rel Text (w (.text e t)) (z.text e t) (z'.text e t))
  (helement : ∀ parent e t,
    Rel Text (w (.element parent e [])) (z.element parent e t) (z'.element parent e t))
  (hcomment : ∀ e t, Rel Text (w (.comment e t)) (z.comment e t) (z'.comment e t))
  (hnotice : ∀ n, Rel Unit [] (z.notice n) (z'.notice n))
include htext helement hcomment hnotice

theorem steps {β : Type} (g : Html.Canvas → β) (c : Html.Canvas) (events : List Html.Event) :
    Rel β ((Html.Event.calls c.current (Html.Serializer.path c) events).flatMap w)
      (g <$> z.steps c events) (g <$> z'.steps c events) := by
  induction events generalizing c with
  | nil =>
    change Rel β [] (g <$> Pure.pure c) (g <$> Pure.pure c)
    rw [map_pure, map_pure]
    exact h.pure (g c)
  | cons event events ih =>
    cases event with
    | text t =>
      rw [Html.Serializer.map_steps_text, Html.Serializer.map_steps_text]
      exact h.bind (htext c.current t) fun written => ih (c.add written)
    | comment t =>
      rw [Html.Serializer.map_steps_comment, Html.Serializer.map_steps_comment]
      exact h.bind (hcomment c.current t) fun written => ih (c.add written)
    | leaf e =>
      rw [Html.Serializer.map_steps_leaf, Html.Serializer.map_steps_leaf]
      exact h.bind (helement c.current e []) fun written => ih (c.add written)
    | enter e =>
      rw [Html.Serializer.map_steps_enter, Html.Serializer.map_steps_enter]
      exact ih (c.enter e)
    | leave =>
      obtain ⟨top, _ | ⟨parent, outer⟩⟩ := c
      · change Rel β _ (g <$> (Pure.pure _ >>= (z.steps · events)))
          (g <$> (Pure.pure _ >>= (z'.steps · events)))
        rw [pure_bind, pure_bind]
        exact ih ⟨top, []⟩
      · rw [Html.Serializer.map_steps_leave, Html.Serializer.map_steps_leave]
        exact h.bind (helement parent.element top.element top.contents) fun written =>
          ih (.add ⟨parent, outer⟩ written)
    | notice n =>
      rw [Html.Serializer.map_steps_notice, Html.Serializer.map_steps_notice]
      exact h.bind (hnotice n) fun _ => ih c

/-- **Serializers whose parts are related write related things**, and what they do is what the calls
say that are read off the events. -/
theorem run {context : Html.Element} (hstart : Rel Text [] (z.start context) (z'.start context))
    (events : List Html.Event) :
    Rel Text ((Html.Event.calls context [] events).flatMap w) (z.run context events)
      (z'.run context events) := by
  have hsteps (opening : Text) := h.steps z z' w htext helement hcomment hnotice
    (opening ++ ·.top.contents) { top := ⟨context, []⟩ } events
  simp only [← bind_pure_comp] at hsteps
  exact h.bind hstart hsteps

end Sequential

end Stencil.Render
