import Stencil.Proofs.Render.Fidelity
import Stencil.Proofs.Render.Frames

/-!
# Kept frames

With a service whose answers depend only on what it is asked, a render that keeps the frames it
has built gives what one gives that builds a frame for every span (`render_eq_renderAnew`). What
keeping changes is how often the service is asked for a frame: once for each form that some span
needs, while every span is parsed and expanded once (`gives_accounts`). `builds_once` says both.
-/

namespace Stencil.Render

variable {m : Type → Type} [Monad m] {Tree Frame α β : Type}

/-! ## Services that always answer the same -/

namespace Service

/-- What a service was asked to parse. -/
def Call.parsed? : Call Tree → Option Text
  | .parse t => some t
  | _ => none

/-- What a service was asked to expand. -/
def Call.expanded? : Call Tree → Option Tree
  | .expand tree => some tree
  | _ => none

/-- What a service was asked to make a frame of. -/
def Call.framed? : Call Tree → Option Bindings
  | .frame b => some b
  | _ => none

/-- Whether a service was asked for neither a tree, an expansion nor a frame. -/
def Call.IsAside (call : Call Tree) : Prop :=
  call.parsed? = none ∧ call.expanded? = none ∧ call.framed? = none

variable (s : Service Id Tree Frame)

/-- A service whose answers depend only on what it is asked, in any monad. -/
def answering : Service m Tree Frame where
  parse t := pure (s.parse t).run
  expand tree f := pure (s.expand tree f).run
  frame b := pure (s.frame b).run
  bindings := pure s.bindings.run
  resolve t := pure (s.resolve t).run
  decode t := pure (s.decode t).run
  reprocess t := pure (s.reprocess t).run

/-- What is known of a render that has needed some forms: the frames of these are built, and each
was asked for where it was needed first. -/
structure Framed (forms : List Form) (p : Progress Frame) (log : List (Call Tree)) : Prop where
  built (form : Form) :
    p.frames.frame? form = if form ∈ forms then some (s.frameOf form) else none
  asked : log.filterMap Call.framed? = forms.eraseDups.map s.bindingsOf

/-- What is known of a render that has filled some spans in. -/
structure Accounts (done : List Span) (p : Progress Frame) (log : List (Call Tree)) : Prop where
  framed : s.Framed (done.map Span.form) p log
  parsed : log.filterMap Call.parsed? = done.map Span.source
  expanded : log.filterMap Call.expanded? = done.map fun span => (s.parse span.source).run

end Service

namespace Renderer

/-- A renderer over a service whose answers depend only on what it is asked. The sanitizer may do
anything; the log is left aside. -/
def answering (settings : Settings) (s : Service Id Tree Frame) (sanitize : Text → m Text) :
    Renderer m Tree Frame where
  settings
  service := s.answering
  sanitize
  notice _ := pure ⟨⟩

variable (r : Renderer m Tree Frame)

/-- A text with its placeholders filled in, with a frame that is built for it alone. -/
def expandAnew (form : Form) (t : Text) : StateT (Progress Frame) m Text := do
  let tree ← r.service.parse t
  let f ← (buildFrame r.service r.notice form : m Frame)
  r.service.expand tree f

/-- A fragment with its placeholders filled in, with a frame that is built for every text and every
value with a marker. -/
def renderAnew (fragment : Text) : m (Text × List ModuleRequest) :=
  r.renderBy { r.acts with fill := r.expandAnew } fragment

end Renderer

/-- Progress without the frames that were built. -/
def Progress.unframed (p : Progress Frame) : Progress Frame := { p with frames := {} }

/-- Whether a run that may keep frames gives what another gives from progress without them. -/
def Agrees (s : Service Id Tree Frame) (x y : StateT (Progress Frame) m α) : Prop :=
  ∀ p, s.Kept p → Gives (fun q => s.Kept q.2) (x.run p) ∧
    (fun q => (q.1, q.2.unframed)) <$> x.run p = y.run p.unframed

/-- Runs with a log of what the service was asked. -/
abbrev Recording (m : Type → Type) (Tree : Type) : Type → Type :=
  StateT (List (Service.Call Tree)) m

/-- What is asked with a call, with the call recorded. -/
def record (call : Service.Call Tree) (x : m α) : Recording m Tree α := do
  modify (· ++ [call])
  x

/-- Whether a run gives a result, and asks the service for neither a tree, an expansion nor a
frame. -/
def Asides (x : Recording m Tree α) (a : α) : Prop :=
  ∀ log, ∃ calls : List (Service.Call Tree), (∀ call ∈ calls, call.IsAside) ∧
    x.run log = pure (a, log ++ calls)

/-- Whether a run fills some spans in and no others, as its progress and the log of the service
account for. -/
def Fills (s : Service Id Tree Frame) (spans : List Span)
    (x : StateT (Progress Frame) (Recording m Tree) α) : Prop :=
  ∀ done p log, s.Accounts done p log →
    Gives (fun q => s.Accounts (done ++ spans) q.1.2 q.2) ((x.run p).run log)

variable [LawfulMonad m] (s : Service Id Tree Frame)

/-! ## Rendering without kept frames -/

theorem buildFrame_answering (form : Form) :
    buildFrame s.answering (fun _ => pure ⟨⟩) form = (pure (s.frameOf form) : m Frame) := by
  have hanswers : Sequential fun α (_ : List Span) (x : m α) (y : Id α) => x = pure y.run :=
    { pure := fun _ => rfl
      bind := by
        rintro α β - - x y f f' rfl hf
        rw [pure_bind]
        exact hf _ }
  have hbindings : formBindings (s.answering : Service m Tree Frame) form s.bindings.run =
      pure (s.bindingsOf form) :=
    hanswers.formBindings (fun _ => rfl) (fun _ => rfl) (fun _ => rfl) form s.bindings.run
  change (pure s.bindings.run >>= fun b => pure PUnit.unit >>= fun _ =>
    formBindings s.answering form b >>= (s.answering : Service m Tree Frame).frame) = _
  rw [pure_bind, pure_bind, hbindings, pure_bind]
  rfl

theorem agrees_lift (x : m α) :
    Agrees s (monadLift x : StateT (Progress Frame) m α) (monadLift x) := by
  intro p hp
  rw [StateT.run_monadLift, StateT.run_monadLift, bind_pure_comp, bind_pure_comp]
  refine ⟨?_, Functor.map_map _ _ _⟩
  exact gives_map (Q := fun q : α × Progress Frame => s.Kept q.2) (fun _ => hp) x

theorem Agrees.bind {s : Service Id Tree Frame} {x y : StateT (Progress Frame) m α}
    {f g : α → StateT (Progress Frame) m β} (h : Agrees s x y) (hf : ∀ a, Agrees s (f a) (g a)) :
    Agrees s (x >>= f) (y >>= g) := by
  intro p hp
  obtain ⟨hkept, hrun⟩ := h p hp
  rw [StateT.run_bind, StateT.run_bind, ← hrun, map_bind, bind_map_left]
  refine ⟨hkept.bind fun q hq => (hf q.1 q.2 hq).1, ?_⟩
  exact hkept.bind_congr fun q hq => (hf q.1 q.2 hq).2

namespace Renderer

variable (settings : Settings) (sanitize : Text → m Text)

theorem run_frame_answering {p : Progress Frame} (hp : s.Kept p) (form : Form) :
    ∃ p', ((answering settings s sanitize).frame form).run p = pure (s.frameOf form, p') ∧
      s.Kept p' ∧ p'.unframed = p.unframed := by
  rw [run_frame]
  cases hf : p.frames.frame? form with
  | some f =>
    obtain rfl := hp form f hf
    exact ⟨p, rfl, hp, rfl⟩
  | none =>
    have hbuild : buildFrame (answering settings s sanitize).service
        (answering settings s sanitize).notice form = pure (s.frameOf form) :=
      buildFrame_answering s form
    dsimp only
    rw [hbuild, pure_bind]
    exact ⟨_, rfl, hp.insert form, rfl⟩

theorem agrees_expand (form : Form) (t : Text) :
    Agrees s ((answering settings s sanitize).expand form t)
      ((answering settings s sanitize).expandAnew form t) := by
  have hframe : Agrees s ((answering settings s sanitize).frame form)
      (monadLift (pure (s.frameOf form) : m Frame)) := by
    intro p hp
    obtain ⟨p', hrun, hp', hunframed⟩ := run_frame_answering s settings sanitize hp form
    have hlift : (monadLift (pure (s.frameOf form) : m Frame) :
        StateT (Progress Frame) m Frame).run p.unframed = pure (s.frameOf form, p.unframed) :=
      pure_bind _ _
    rw [hrun, map_pure, hunframed, hlift]
    exact ⟨gives_pure hp', rfl⟩
  rw [← buildFrame_answering s form] at hframe
  exact (agrees_lift s _).bind fun tree => hframe.bind fun f => agrees_lift s _

theorem related_agrees :
    Acts.Related (fun _ _ => Agrees s)
      (answering settings s sanitize).acts
      { (answering settings s sanitize).acts with
        fill := (answering settings s sanitize).expandAnew } where
  pure _ _ hp := ⟨gives_pure hp, map_pure _ _⟩
  bind := Agrees.bind
  fill := agrees_expand s settings sanitize
  sanitize _ := agrees_lift s _
  reprocess _ := agrees_lift s _
  report _ _ hp := ⟨gives_pure hp, map_pure _ _⟩
  notice _ := agrees_lift s _

/-- **Keeping frames makes no difference** to what is written, and to what is asked for. -/
theorem render_eq_renderAnew (fragment : Text) :
    (answering settings s sanitize).render fragment =
      (answering settings s sanitize).renderAnew fragment := by
  obtain ⟨-, hrun⟩ := (related_agrees s settings sanitize).run settings fragment {} s.kept_empty
  have hwritten := congrArg (· >>= fun q => pure (q.1, q.2.requests)) hrun
  dsimp only at hwritten
  rw [bind_map_left] at hwritten
  exact congrArg (pure PUnit.unit >>= fun _ => ·) hwritten

end Renderer

/-! ## What the service is asked -/

namespace Service.Framed

variable {s : Service Id Tree Frame} {forms : List Form} {form : Form} {p : Progress Frame}
  {log calls : List (Call Tree)}

theorem append (h : s.Framed forms p log) (hcalls : calls.filterMap Call.framed? = []) :
    s.Framed forms p (log ++ calls) where
  built := h.built
  asked := by rw [List.filterMap_append, hcalls, List.append_nil, h.asked]

theorem again (h : s.Framed forms p log) (hmem : form ∈ forms) :
    s.Framed (forms ++ [form]) p log where
  built g := by
    have hmore : g ∈ forms ++ [form] ↔ g ∈ forms := by
      rw [List.mem_append, List.mem_singleton, or_iff_left_iff_imp]
      rintro rfl
      exact hmem
    simp only [hmore, h.built g]
  asked := by rw [eraseDups_concat, if_pos hmem, List.append_nil, h.asked]

theorem insert (h : s.Framed forms p log) (hmem : form ∉ forms) :
    s.Framed (forms ++ [form]) { p with frames := p.frames.insert form (s.frameOf form) }
      (log ++ [.frame (s.bindingsOf form)]) where
  built g := by
    change (if g = form then some (s.frameOf form) else p.frames.frame? g) = _
    rw [h.built g]
    by_cases hg : g = form
    · rw [if_pos hg, hg, if_pos (List.mem_append_right _ (List.mem_singleton_self form))]
    · simp [hg]
  asked := by
    rw [eraseDups_concat, if_neg hmem, List.filterMap_append, h.asked, List.map_append]
    rfl

end Service.Framed

omit [LawfulMonad m] in
theorem run_bind_run (x : StateT (Progress Frame) (Recording m Tree) α)
    (f : α → StateT (Progress Frame) (Recording m Tree) β) (p : Progress Frame)
    (log : List (Service.Call Tree)) : ((x >>= f).run p).run log =
      (x.run p).run log >>= fun q => ((f q.1.1).run q.1.2).run q.2 := rfl

omit [LawfulMonad m] in
theorem run_lift_run (x : Recording m Tree α) (p : Progress Frame)
    (log : List (Service.Call Tree)) :
    ((monadLift x : StateT (Progress Frame) (Recording m Tree) α).run p).run log =
      x.run log >>= fun q => pure ((q.1, p), q.2) := rfl

theorem run_record (call : Service.Call Tree) (x : m α) (log : List (Service.Call Tree)) :
    (record call x).run log = x >>= fun a => pure (a, log ++ [call]) := by
  rw [record, StateT.run_bind, StateT.run_modify, pure_bind]
  rfl

omit [LawfulMonad m] in
theorem asides_pure (a : α) : Asides (pure a : Recording m Tree α) a := by
  intro log
  refine ⟨[], fun call hcall => absurd hcall List.not_mem_nil, ?_⟩
  rw [StateT.run_pure, List.append_nil]

theorem Asides.bind {x : Recording m Tree α} {f : α → Recording m Tree β} {a : α} {b : β}
    (h : Asides x a) (hf : Asides (f a) b) : Asides (x >>= f) b := by
  intro log
  obtain ⟨calls, hcalls, hrun⟩ := h log
  obtain ⟨more, hmore, hrest⟩ := hf (log ++ calls)
  refine ⟨calls ++ more, ?_, ?_⟩
  · intro call hcall
    exact (List.mem_append.1 hcall).elim (hcalls call) (hmore call)
  · rw [StateT.run_bind, hrun, pure_bind, hrest, List.append_assoc]

theorem asides_record (call : Service.Call Tree) (h : call.IsAside) (a : α) :
    Asides (record call (pure a : m α)) a := by
  intro log
  refine ⟨[call], fun c hc => ?_, ?_⟩
  · rw [List.mem_singleton.1 hc]
    exact h
  · rw [run_record, pure_bind]

/-- The arguments are brought into a form without a call for a tree, an expansion or a frame. -/
theorem asides_formBindings (form : Form) :
    Asides (formBindings (s.answering : Service m Tree Frame).traced form s.bindings.run)
      (s.bindingsOf form) := by
  have hseq : Sequential fun α (_ : List Span) (x : Recording m Tree α) (y : Id α) =>
      Asides x y.run :=
    { pure := asides_pure
      bind := fun h hf => h.bind (hf _) }
  have hdecode (t : Text) :
      Asides ((s.answering : Service m Tree Frame).traced.decode t) (s.decode t).run := by
    intro log
    refine ⟨[], fun call hcall => absurd hcall List.not_mem_nil, ?_⟩
    rw [List.append_nil]
    exact pure_bind _ _
  exact hseq.formBindings (fun t => asides_record _ ⟨rfl, rfl, rfl⟩ _) hdecode
    (fun t => asides_record _ ⟨rfl, rfl, rfl⟩ _) form s.bindings.run

theorem fills_pure (a : α) :
    Fills s [] (pure a : StateT (Progress Frame) (Recording m Tree) α) := by
  intro done p log h
  rw [List.append_nil]
  exact gives_pure h

theorem fills_lift (x : m α) : Fills s []
    (monadLift (monadLift x : Recording m Tree α) :
      StateT (Progress Frame) (Recording m Tree) α) := by
  intro done p log h
  have hrun : (monadLift x : Recording m Tree α).run log = (·, log) <$> x := by
    rw [StateT.run_monadLift]
    exact bind_pure_comp _ _
  rw [run_lift_run, hrun, bind_map_left, bind_pure_comp, List.append_nil]
  refine gives_map (fun a => ?_) x
  exact h

/-- Asking for something else fills nothing in. -/
theorem fills_asides {x : Recording m Tree α} {a : α} (h : Asides x a) :
    Fills s [] (monadLift x : StateT (Progress Frame) (Recording m Tree) α) := by
  intro done p log hdone
  obtain ⟨calls, hcalls, hrun⟩ := h log
  rw [run_lift_run, hrun, pure_bind, List.append_nil]
  refine gives_pure ⟨hdone.framed.append ?_, ?_, ?_⟩
  · exact List.filterMap_eq_nil_iff.2 fun call hcall => (hcalls call hcall).2.2
  · rw [List.filterMap_append, hdone.parsed,
      List.filterMap_eq_nil_iff.2 fun call hcall => (hcalls call hcall).1, List.append_nil]
  · rw [List.filterMap_append, hdone.expanded,
      List.filterMap_eq_nil_iff.2 fun call hcall => (hcalls call hcall).2.1, List.append_nil]

theorem Fills.bind {s : Service Id Tree Frame} {ws vs : List Span}
    {x : StateT (Progress Frame) (Recording m Tree) α}
    {f : α → StateT (Progress Frame) (Recording m Tree) β} (h : Fills s ws x)
    (hf : ∀ a, Fills s vs (f a)) : Fills s (ws ++ vs) (x >>= f) := by
  intro done p log hdone
  rw [run_bind_run]
  refine (h done p log hdone).bind fun q hq => ?_
  rw [← List.append_assoc]
  exact hf q.1.1 (done ++ ws) q.1.2 q.2 hq

namespace Renderer

variable (settings : Settings) (sanitize : Text → m Text)

theorem run_notice_traced (n : Notice) (log : List (Service.Call Tree)) :
    ((answering settings s sanitize).traced.notice n).run log = pure (⟨⟩, log) := pure_bind _ _

theorem run_buildFrame_traced (form : Form) (log : List (Service.Call Tree)) :
    ∃ calls : List (Service.Call Tree), (∀ call ∈ calls, call.IsAside) ∧
      (buildFrame (answering settings s sanitize).traced.service
        (answering settings s sanitize).traced.notice form).run log =
          pure (s.frameOf form, log ++ calls ++ [.frame (s.bindingsOf form)]) := by
  obtain ⟨calls, hcalls, hbindings⟩ := asides_formBindings (m := m) s form (log ++ [.bindings])
  refine ⟨.bindings :: calls, List.forall_mem_cons.2 ⟨⟨rfl, rfl, rfl⟩, hcalls⟩, ?_⟩
  change (record .bindings (pure s.bindings.run) >>= fun b =>
    (answering settings s sanitize).traced.notice (frameNotice form b.size) >>= fun _ =>
      formBindings (s.answering : Service m Tree Frame).traced form b >>= fun b =>
        record (.frame b) (pure (s.frame b).run)).run log = _
  rw [StateT.run_bind, run_record, pure_bind, pure_bind]
  dsimp only
  rw [StateT.run_bind, run_notice_traced, pure_bind]
  dsimp only
  rw [StateT.run_bind, hbindings, pure_bind, run_record, pure_bind, List.append_assoc log]
  rfl

/-- A frame is there after it was asked for, and was built if it was not there before. -/
theorem run_frame_traced {forms : List Form} {p : Progress Frame} {log : List (Service.Call Tree)}
    (h : s.Framed forms p log) (form : Form) :
    ∃ (p' : Progress Frame) (calls : List (Service.Call Tree)),
      (((answering settings s sanitize).traced.frame form).run p).run log =
        pure ((s.frameOf form, p'), log ++ calls) ∧
      s.Framed (forms ++ [form]) p' (log ++ calls) ∧
      ∀ call ∈ calls, call.parsed? = none ∧ call.expanded? = none := by
  have hbuilt := h.built form
  rw [run_frame]
  by_cases hmem : form ∈ forms
  · rw [if_pos hmem] at hbuilt
    rw [hbuilt]
    refine ⟨p, [], ?_, ?_, fun call hcall => absurd hcall List.not_mem_nil⟩
    · rw [List.append_nil]
      rfl
    · rw [List.append_nil]
      exact h.again hmem
  · obtain ⟨calls, hcalls, hbuild⟩ := run_buildFrame_traced s settings sanitize form log
    have hnone : calls.filterMap Service.Call.framed? = [] :=
      List.filterMap_eq_nil_iff.2 fun call hcall => (hcalls call hcall).2.2
    rw [if_neg hmem] at hbuilt
    rw [hbuilt]
    refine ⟨{ p with frames := p.frames.insert form (s.frameOf form) },
      calls ++ [.frame (s.bindingsOf form)], ?_, ?_, fun call hcall => ?_⟩
    · dsimp only
      rw [StateT.run_bind, hbuild, pure_bind, List.append_assoc]
      rfl
    · rw [← List.append_assoc]
      exact (h.append hnone).insert hmem
    · rcases List.mem_append.1 hcall with hcall | hcall
      · exact ⟨(hcalls call hcall).1, (hcalls call hcall).2.1⟩
      · rw [List.mem_singleton.1 hcall]
        exact ⟨rfl, rfl⟩

/-- **A span is parsed once and expanded once**, with the frame of its form. -/
theorem fills_expand (form : Form) (t : Text) :
    Fills s [⟨form, t⟩] ((answering settings s sanitize).traced.expand form t) := by
  intro done p log h
  have hparse : s.Framed (done.map Span.form) p (log ++ [.parse t]) := h.framed.append rfl
  obtain ⟨p', calls, hrun, hframed, hcalls⟩ := run_frame_traced s settings sanitize hparse form
  have hparsed : calls.filterMap Service.Call.parsed? = [] :=
    List.filterMap_eq_nil_iff.2 fun call hcall => (hcalls call hcall).1
  have hexpanded : calls.filterMap Service.Call.expanded? = [] :=
    List.filterMap_eq_nil_iff.2 fun call hcall => (hcalls call hcall).2
  have hexpand : (((answering settings s sanitize).traced.expand form t).run p).run log =
      pure (((s.expand (s.parse t).run (s.frameOf form)).run, p'),
        log ++ [.parse t] ++ calls ++ [.expand (s.parse t).run]) := by
    change (((monadLift (record (.parse t) (pure (s.parse t).run : m Tree)) : StateT _ _ _) >>=
      fun tree => (answering settings s sanitize).traced.frame form >>= fun f =>
        (monadLift (record (.expand tree) (pure (s.expand tree f).run : m Text)) :
          StateT _ _ _)).run p).run log = _
    rw [run_bind_run, run_lift_run, run_record, pure_bind, pure_bind, pure_bind, run_bind_run, hrun,
      pure_bind, run_lift_run, run_record, pure_bind, pure_bind]
  rw [hexpand]
  refine gives_pure ⟨?_, ?_, ?_⟩
  · rw [List.map_append]
    exact hframed.append rfl
  · rw [List.filterMap_append, List.filterMap_append, List.filterMap_append, h.parsed, hparsed,
      List.append_nil, List.map_append]
    exact List.append_nil _
  · have hnone : [Service.Call.parse t].filterMap Service.Call.expanded? = ([] : List Tree) := rfl
    rw [List.filterMap_append, List.filterMap_append, List.filterMap_append, h.expanded, hexpanded,
      hnone, List.append_nil, List.append_nil, List.map_append]
    rfl

theorem fills_report (request : ModuleRequest) :
    Fills s [] ((answering settings s sanitize).traced.acts.report request) := by
  intro done p log h
  rw [List.append_nil]
  exact gives_pure ⟨⟨h.framed.built, h.framed.asked⟩, h.parsed, h.expanded⟩

theorem related_fills :
    Acts.Related (fun _ deeds x _ => Fills s (deeds.filterMap Deed.span?) x)
      (answering settings s sanitize).traced.acts
      (answering settings s sanitize).traced.acts where
  pure := fills_pure s
  bind hx hf := by
    rw [List.filterMap_append]
    exact hx.bind hf
  fill := fills_expand s settings sanitize
  sanitize _ := fills_lift s _
  reprocess t := fills_asides s (asides_record (.reprocess t) ⟨rfl, rfl, rfl⟩ _)
  report := fills_report s settings sanitize
  notice _ := fills_lift s _

/-- What is known of a service after a render, from the spans of the fragment. -/
theorem gives_accounts (fragment : Text) :
    Gives (fun out => ∃ p, s.Accounts (settings.spans fragment) p out.2)
      (((answering settings s sanitize).traced.render fragment).run []) := by
  have hstart : s.Accounts [] {} [] := ⟨⟨fun _ => rfl, rfl⟩, rfl, rfl⟩
  have hrun := (related_fills s settings sanitize).run settings fragment [] {} [] hstart
  rw [render, renderBy, StateT.run_bind, run_notice_traced, pure_bind,
    StateT.run_bind]
  exact hrun.bind fun q hq => gives_pure ⟨q.1.2, hq⟩

/-- **Keeping frames changes only how many are built.** With a service whose answers depend only on
what it is asked, a render gives what one gives that builds a frame for every span. It asks for one
frame of each form that a span needs, and for no others, and every span is parsed and expanded
once. -/
theorem builds_once (fragment : Text) :
    (answering settings s sanitize).render fragment =
        (answering settings s sanitize).renderAnew fragment ∧
      Gives (fun out =>
          out.2.filterMap Service.Call.framed? =
            ((settings.spans fragment).map Span.form).eraseDups.map s.bindingsOf ∧
          out.2.filterMap Service.Call.parsed? = (settings.spans fragment).map Span.source ∧
          out.2.filterMap Service.Call.expanded? =
            (settings.spans fragment).map fun span => (s.parse span.source).run)
        (((answering settings s sanitize).traced.render fragment).run []) := by
  refine ⟨render_eq_renderAnew s settings sanitize fragment, ?_⟩
  rw [← bind_pure (((answering settings s sanitize).traced.render fragment).run [])]
  refine (gives_accounts s settings sanitize fragment).bind fun out hout => ?_
  obtain ⟨p, hframed, hparsed, hexpanded⟩ := hout
  exact gives_pure ⟨hframed.asked, hparsed, hexpanded⟩

/-- A style that is one placeholder, a marker with a value, and an element in a directive. -/
def styledFragment : Text :=
  ("<i style=\"{{{1}}}\" title=\"{{{1}}}\" data-mw-wikitext=\"{{{2}}}\">{{{1}}}</i>" ++
    "<load module=\"{{{3}}}\">{{{4}}}<b title=\"{{{1}}}\"></b></load>").toList

theorem builds_once_styledFragment :
    let settings : Settings := { resourceDirective := "load".toList }
    let s : Service Id Template Bindings := (Expander.escaping (.positional ["v".toList])).service
    let r : Renderer Id Template Bindings := .answering settings s (sanitizing fun _ => pure ⟨⟩)
    let log := ((r.traced.render styledFragment).run []).run.2
    r.render styledFragment = r.renderAnew styledFragment ∧
      (log.filterMap Service.Call.framed?).length = 2 ∧
      log.filterMap Service.Call.parsed? = List.replicate 4 "{{{1}}}".toList ∧
      (log.filterMap Service.Call.expanded?).length = 4 := by
  intro settings s r log
  obtain ⟨hanew, hasked⟩ := builds_once s settings r.sanitize styledFragment
  obtain ⟨hframed, hparsed, hexpanded⟩ := hasked.id
  have hspans : settings.spans styledFragment =
      ⟨.markup, "{{{1}}}".toList⟩ :: List.replicate 3 ⟨.plain, "{{{1}}}".toList⟩ := by
    decide +kernel
  rw [hspans] at hframed hparsed hexpanded
  refine ⟨hanew, ?_, hparsed, ?_⟩
  · exact (congrArg List.length hframed).trans (by rw [List.length_map]; decide)
  · exact (congrArg List.length hexpanded).trans (by rw [List.length_map]; rfl)

end Renderer

end Stencil.Render
