import Stencil.Html.Serializer

/-!
# Stateful runs

What a stateful run can do with its state: not let its result depend on it (`Forgets`), keep a
property of it (`Keeps`), or give one result as long as the state has a property (`Settles`); and
what any run can do, give only results with a property (`Gives`). Each holds of a sequence of runs
if it holds of its parts.
-/

namespace Stencil

variable {m : Type → Type} {σ α β : Type}

/-! ### Stateful runs -/

/-- A stateful run whose result is that of a run without the state, from every state. -/
def Forgets [Monad m] (x : StateT σ m α) (y : m α) : Prop := ∀ s, Prod.fst <$> x.run s = y

/-- A stateful run that only ends in states with a property, from states with it. -/
def Keeps [Monad m] (P : σ → Prop) (x : StateT σ m α) : Prop :=
  ∀ s, P s → ∃ y : m { p : α × σ // P p.2 }, Subtype.val <$> y = x.run s

/-- A stateful run that gives a result and keeps a property of the state, from states with it. -/
def Settles (P : σ → Prop) (x : StateT σ Id α) (a : α) : Prop :=
  ∀ s, P s → (x.run s).1 = a ∧ P (x.run s).2

/-- A run that only gives results with a property. -/
def Gives [Monad m] (P : α → Prop) (x : m α) : Prop :=
  ∃ y : m { a : α // P a }, Subtype.val <$> y = x

variable [Monad m] [LawfulMonad m]

section Gives

variable {P : α → Prop} {Q : β → Prop}

theorem gives_pure {a : α} (h : P a) : Gives P (pure a : m α) := by
  refine ⟨pure ⟨a, h⟩, ?_⟩
  rw [map_pure]

theorem gives_of_forall (h : ∀ a, P a) (x : m α) : Gives P x := by
  refine ⟨(fun a => ⟨a, h a⟩) <$> x, ?_⟩
  rw [Functor.map_map, id_map']

theorem Gives.bind {x : m α} {f : α → m β} (h : Gives P x) (hf : ∀ a, P a → Gives Q (f a)) :
    Gives Q (x >>= f) := by
  obtain ⟨y, rfl⟩ := h
  have hrest (a : { a : α // P a }) : ∃ z : m { b : β // Q b }, Subtype.val <$> z = f a.1 :=
    hf a.1 a.2
  refine ⟨y >>= fun a => (hrest a).choose, ?_⟩
  rw [map_bind, bind_map_left]
  exact congrArg (y >>= ·) (funext fun a => (hrest a).choose_spec)

theorem gives_map {f : α → β} (h : ∀ a, Q (f a)) (x : m α) : Gives Q (f <$> x) := by
  rw [← bind_pure_comp]
  exact (gives_of_forall (P := fun _ => True) (fun _ => trivial) x).bind fun a _ => gives_pure (h a)

/-- What is done with a result only has to agree on results with the property. -/
theorem Gives.bind_congr {x : m α} {f g : α → m β} (h : Gives P x) (hfg : ∀ a, P a → f a = g a) :
    x >>= f = x >>= g := by
  obtain ⟨y, rfl⟩ := h
  rw [bind_map_left, bind_map_left]
  exact congrArg (y >>= ·) (funext fun a => hfg a.1 a.2)

theorem gives_mapM {γ : Type} {f : α → m β} {g : β → γ} {k : α → γ}
    (h : ∀ a, Gives (fun b => g b = k a ∧ Q b) (f a)) (as : List α) :
    Gives (fun bs => bs.map g = as.map k ∧ ∀ b ∈ bs, Q b) (as.mapM f) := by
  induction as with
  | nil =>
    rw [List.mapM_nil]
    exact gives_pure ⟨rfl, fun b hb => by cases hb⟩
  | cons a as ih =>
    rw [List.mapM_cons]
    refine (h a).bind fun b ⟨hname, hb⟩ => ih.bind fun bs ⟨hnames, hbs⟩ => gives_pure ⟨?_, ?_⟩
    · rw [List.map_cons, List.map_cons, hname, hnames]
    · exact List.forall_mem_cons.2 ⟨hb, hbs⟩

theorem Gives.id {x : Id α} (h : Gives P x) : P x.run := by
  obtain ⟨y, rfl⟩ := h
  exact y.run.2

theorem Gives.run {x : StateT σ Id α} (h : Gives P x) (s : σ) : P (x.run s).1 := by
  obtain ⟨y, rfl⟩ := h
  exact (y.run s).1.2

end Gives

theorem forgets_pure (a : α) : Forgets (pure a : StateT σ m α) (pure a) := by
  intro s
  rw [StateT.run_pure, map_pure]

theorem forgets_lift (y : m α) : Forgets (monadLift y : StateT σ m α) y := by
  intro s
  rw [StateT.run_monadLift, map_bind]
  simp only [map_pure, bind_pure]
  rfl

theorem forgets_modify (f : σ → σ) : Forgets (modify f : StateT σ m PUnit) (pure ⟨⟩) := by
  intro s
  rw [StateT.run_modify, map_pure]

theorem Forgets.bind {x : StateT σ m α} {y : m α} {f : α → StateT σ m β} {g : α → m β}
    (h : Forgets x y) (hf : ∀ a, Forgets (f a) (g a)) : Forgets (x >>= f) (y >>= g) := by
  intro s
  have hrest (p : α × σ) : Prod.fst <$> (f p.1).run p.2 = g p.1 := hf p.1 p.2
  rw [StateT.run_bind, map_bind, ← h s, bind_map_left]
  simp only [hrest]

variable {P : σ → Prop}

theorem keeps_pure (a : α) : Keeps P (pure a : StateT σ m α) := by
  intro s hs
  refine ⟨pure ⟨(a, s), hs⟩, ?_⟩
  rw [map_pure, StateT.run_pure]

theorem keeps_lift (y : m α) : Keeps P (monadLift y : StateT σ m α) := by
  intro s hs
  refine ⟨(fun a => ⟨(a, s), hs⟩) <$> y, ?_⟩
  rw [StateT.run_monadLift, Functor.map_map, bind_pure_comp]
  rfl

theorem keeps_modify {f : σ → σ} (h : ∀ s, P s → P (f s)) :
    Keeps P (modify f : StateT σ m PUnit) := by
  intro s hs
  refine ⟨pure ⟨(⟨⟩, f s), h s hs⟩, ?_⟩
  rw [map_pure, StateT.run_modify]

theorem Keeps.bind {x : StateT σ m α} {f : α → StateT σ m β} (h : Keeps P x)
    (hf : ∀ a, Keeps P (f a)) : Keeps P (x >>= f) := by
  intro s hs
  obtain ⟨y, hy⟩ := h s hs
  have hrest (p : { p : α × σ // P p.2 }) :
      ∃ z : m { q : β × σ // P q.2 }, Subtype.val <$> z = (f p.1.1).run p.1.2 :=
    hf p.1.1 p.1.2 p.2
  -- The rest is known to end well only from states with the property, so it is chosen for each.
  refine ⟨y >>= fun p => (hrest p).choose, ?_⟩
  rw [map_bind, StateT.run_bind, ← hy, bind_map_left]
  exact congrArg (y >>= ·) (funext fun p => (hrest p).choose_spec)

theorem Keeps.forM {f : α → StateT σ m PUnit} (h : ∀ a, Keeps P (f a)) (l : List α) :
    Keeps P (l.forM f) := by
  induction l with
  | nil => exact keeps_pure _
  | cons a l ih => exact (h a).bind fun _ => ih

section Settles

theorem settles_pure (a : α) : Settles P (pure a) a := fun _ hs => ⟨rfl, hs⟩

theorem settles_lift (y : Id α) : Settles P (monadLift y) y.run := fun _ hs => ⟨rfl, hs⟩

theorem Settles.bind {x : StateT σ Id α} {f : α → StateT σ Id β} {a : α} {b : β}
    (h : Settles P x a) (hf : Settles P (f a) b) : Settles P (x >>= f) b := by
  intro s hs
  obtain ⟨ha, hstate⟩ := h s hs
  have hrest := hf (x.run s).2 hstate
  rw [← ha] at hrest
  exact hrest

end Settles

namespace Html.Serializer

/-! ### Runs of a serializer -/

variable (z : Serializer m) (c : Canvas) (g : Canvas → β) (events : List Event)

theorem map_steps_text (t : Text) : g <$> z.steps c (.text t :: events) =
    z.text c.current t >>= fun w => g <$> z.steps (c.add w) events := by
  change g <$> ((z.text c.current t >>= fun w => pure (c.add w)) >>= (z.steps · events)) = _
  rw [bind_assoc, map_bind]
  simp only [pure_bind]

theorem map_steps_comment (t : Text) : g <$> z.steps c (.comment t :: events) =
    z.comment c.current t >>= fun w => g <$> z.steps (c.add w) events := by
  change g <$> ((z.comment c.current t >>= fun w => pure (c.add w)) >>= (z.steps · events)) = _
  rw [bind_assoc, map_bind]
  simp only [pure_bind]

theorem map_steps_leaf (e : Element) : g <$> z.steps c (.leaf e :: events) =
    z.element c.current e [] >>= fun w => g <$> z.steps (c.add w) events := by
  change g <$> ((z.element c.current e [] >>= fun w => pure (c.add w)) >>= (z.steps · events)) = _
  rw [bind_assoc, map_bind]
  simp only [pure_bind]

theorem map_steps_enter (e : Element) : g <$> z.steps c (.enter e :: events) =
    g <$> z.steps (c.enter e) events := by
  change g <$> (pure (c.enter e) >>= (z.steps · events)) = _
  rw [pure_bind]

theorem map_steps_leave (top parent : Sheet) (outer : List Sheet) :
    g <$> z.steps ⟨top, parent :: outer⟩ (.leave :: events) =
      z.element parent.element top.element top.contents >>= fun w =>
        g <$> z.steps (Canvas.mk parent outer |>.add w) events := by
  change g <$> ((z.element parent.element top.element top.contents >>= fun w =>
    pure (Canvas.mk parent outer |>.add w)) >>= (z.steps · events)) = _
  rw [bind_assoc, map_bind]
  simp only [pure_bind]

theorem map_steps_notice (n : Notice) : g <$> z.steps c (.notice n :: events) =
    z.notice n >>= fun _ => g <$> z.steps c events := by
  change g <$> ((z.notice n >>= fun _ => pure c) >>= (z.steps · events)) = _
  rw [bind_assoc, map_bind]
  simp only [pure_bind]

end Html.Serializer

end Stencil
