import Stencil.Proofs.Bindings.Entries
import Stencil.Proofs.Html.Forest
import Stencil.Proofs.Render.Acts

/-!
# Requests for modules

What a fragment asks for is decided by the fragment: `Settings.requests` reads it off the forest of
the fragment, where an element is closed after its children. No part of a render but the one that
writes an element reports anything (`Adds`), so whatever a service and a sanitizer answer, a render
reports these requests (`gives_render`). Renders that are collected one after another collect every
name where it was asked for first (`gives_collect`).
-/

namespace Stencil

/-! ## What is asked for -/

namespace Html

/-- The elements of a forest in the order in which they close. -/
def Forest.closing : Forest → List Element
  | .nil => []
  | .text _ rest => closing rest
  | .comment _ rest => closing rest
  | .element e children rest => closing children ++ e :: closing rest

/-- The element that a request is about. -/
def Call.element? : Call → Option Element
  | .element _ e _ => some e
  | _ => none

/-- The elements around a place in the order in which they close, each with the elements in the rest
that follows it. -/
def Forest.closingAfter : List Element → List Forest → List Element
  | e :: outer, f :: rests => e :: (f.closing ++ closingAfter outer rests)
  | _, _ => []

theorem Forest.closingAfter_nil (outer : List Element) : closingAfter outer [] = [] := by
  cases outer with
  | nil => rfl
  | cons e outer => rfl

/-- Events that close what is open make the requests for elements in the order in which these close
in the forest. -/
theorem elements_calls {es : List Event} {e : Element} {outer : List Element}
    (h : Event.close outer.length es = true) :
    (Event.calls e outer es).filterMap Call.element? =
      (Forest.remaining es).1.closing ++
        Forest.closingAfter (e :: outer) (Forest.remaining es).2 := by
  induction es generalizing e outer with
  | nil => rfl
  | cons event es ih =>
    cases event with
    | text t =>
      rw [Event.close_text] at h
      exact ih h
    | comment t =>
      rw [Event.close_comment] at h
      exact ih h
    | leaf d =>
      rw [Event.close_leaf] at h
      exact congrArg (d :: ·) (ih h)
    | enter d =>
      rw [Event.close] at h
      have hrest : (Event.calls d (e :: outer) es).filterMap Call.element? = _ := ih h
      have hlength := Forest.length_remaining h
      rw [Event.calls, Forest.remaining]
      -- What is left tells the children first, and then the rest of each element that is open.
      generalize Forest.remaining es = told at hrest hlength ⊢
      obtain ⟨children, rests⟩ := told
      cases rests with
      | nil => cases hlength
      | cons f rests => simpa [Forest.closing, Forest.closingAfter] using hrest
    | leave =>
      cases outer with
      | nil => cases h
      | cons parent outer =>
        exact congrArg (e :: ·) (ih h)
    | notice n =>
      rw [Event.close_notice] at h
      exact ih h

end Html

/-- What is asked for where elements are written. -/
def ModuleRequest.ofCalls (directive : Text) (calls : List Html.Call) : List ModuleRequest :=
  (calls.filterMap Html.Call.element?).filterMap (of? directive)

theorem ModuleRequest.ofCalls_element (directive : Text) (parent e : Html.Element) (contents : Text)
    (calls : List Html.Call) : ofCalls directive (.element parent e contents :: calls) =
      (of? directive e).toList ++ ofCalls directive calls := by
  change (e :: calls.filterMap Html.Call.element?).filterMap (of? directive) = _
  rw [List.filterMap_cons]
  cases of? directive e with
  | none => rfl
  | some request => rfl

/-- What a fragment asks for, in the order in which its elements close. -/
def Settings.requests (s : Settings) (fragment : Text) : List ModuleRequest :=
  let forest := Html.Forest.ofEvents (Html.parse { name := s.contextElement } fragment)
  forest.closing.filterMap (ModuleRequest.of? s.resourceDirective)

/-- The names of one kind that are asked for, in order. -/
def ModuleRequest.names (kind : ModuleKind) (rs : List ModuleRequest) : List Text :=
  (rs.filter fun r => r.kind = kind).map ModuleRequest.name

namespace Render

/-- A renderer over a service of any kind, and a fragment. -/
structure Job (m : Type → Type) where
  {Tree : Type}
  {Frame : Type}
  renderer : Renderer m Tree Frame
  fragment : Text

variable {m : Type → Type}

/-- What the fragment asks for. -/
def Job.requests (job : Job m) : List ModuleRequest :=
  job.renderer.settings.requests job.fragment

/-- Renders one fragment after another, and collects what they ask for. -/
def collect [Monad m] (ms : Modules) (jobs : List (Job m)) : m Modules :=
  jobs.foldlM (fun ms job => do
    let (_, requests) ← job.renderer.render job.fragment
    return ms.addAll requests) ms

/-! ## What is reported -/

theorem filterMap_ofElement (s : Settings) (e : Html.Element) :
    (Deed.ofElement s e).filterMap Deed.request? =
      (ModuleRequest.of? s.resourceDirective e).toList := by
  unfold Deed.ofElement
  split
  · cases ModuleRequest.of? s.resourceDirective e <;> rfl
  · next hplace =>
    have hnone : ModuleRequest.of? s.resourceDirective e = none :=
      if_neg fun hname => hplace (Place.inside_eq_directive.2 hname)
    rw [hnone, Option.toList_none, List.filterMap_eq_nil_iff]
    intro deed hdeed
    obtain ⟨a, -, ha⟩ := List.mem_flatMap.1 hdeed
    obtain ⟨span, -, rfl⟩ := Option.map_eq_some_iff.1 (Option.mem_toList.1 ha)
    rfl

theorem filterMap_ofCall (s : Settings) (calls : List Html.Call) :
    (calls.flatMap (Deed.ofCall s)).filterMap Deed.request? =
      ModuleRequest.ofCalls s.resourceDirective calls := by
  induction calls with
  | nil => rfl
  | cons call calls ih =>
    rw [List.flatMap_cons, List.filterMap_append, ih]
    cases call with
    | text parent t =>
      change ((Span.ofText? s parent t).map Deed.fill).toList.filterMap Deed.request? ++ _ = _
      cases Span.ofText? s parent t <;> rfl
    | element parent e contents =>
      rw [ModuleRequest.ofCalls_element, ← filterMap_ofElement]
      rfl
    | start context => rfl
    | comment parent t => rfl

theorem requests_deeds (s : Settings) (fragment : Text) :
    (s.deeds fragment).filterMap Deed.request? = s.requests fragment := by
  have hclose : Html.Event.close ([] : List Html.Element).length
      (Html.parse { name := s.contextElement } fragment) = true := Html.close_parse rfl fragment
  have hlength := Html.Forest.length_remaining hclose
  rw [Settings.deeds, filterMap_ofCall, ModuleRequest.ofCalls, Html.elements_calls hclose,
    List.length_eq_zero_iff.1 hlength, Html.Forest.closingAfter_nil, List.append_nil]
  rfl

/-! ## Runs that report -/

variable [Monad m] {Tree Frame α β : Type}

/-- Whether a run reports some requests and no others, whatever it does besides. -/
def Adds (ws : List ModuleRequest) (x : StateT (Progress Frame) m α) : Prop :=
  ∀ p, Gives (fun q => q.2.requests = p.requests ++ ws) (x.run p)

variable [LawfulMonad m]

theorem adds_pure (a : α) : Adds [] (pure a : StateT (Progress Frame) m α) := by
  intro p
  rw [StateT.run_pure]
  exact gives_pure (List.append_nil _).symm

theorem adds_lift (y : m α) : Adds [] (monadLift y : StateT (Progress Frame) m α) := by
  intro p
  rw [StateT.run_monadLift, bind_pure_comp]
  apply gives_map
  intro a
  exact (List.append_nil _).symm

theorem adds_modify {ws : List ModuleRequest} {f : Progress Frame → Progress Frame}
    (h : ∀ p, (f p).requests = p.requests ++ ws) :
    Adds ws (modify f : StateT (Progress Frame) m PUnit) := by
  intro p
  rw [StateT.run_modify]
  exact gives_pure (h p)

theorem Adds.bind {ws vs : List ModuleRequest} {x : StateT (Progress Frame) m α}
    {f : α → StateT (Progress Frame) m β} (h : Adds ws x) (hf : ∀ a, Adds vs (f a)) :
    Adds (ws ++ vs) (x >>= f) := by
  intro p
  rw [StateT.run_bind]
  refine (h p).bind fun q hq => ?_
  have hrest := hf q.1 q.2
  rw [hq, List.append_assoc] at hrest
  exact hrest

/-! ## What the parts of a render report -/

namespace Renderer

variable (r : Renderer m Tree Frame)

theorem adds_frame (form : Form) : Adds [] (r.frame form) := by
  intro p
  rw [run_frame]
  cases p.frames.frame? form with
  | some f => exact gives_pure (List.append_nil _).symm
  | none =>
    refine (gives_of_forall (fun _ => trivial) _).bind fun f _ => ?_
    exact gives_pure (List.append_nil _).symm

theorem adds_expand (form : Form) (t : Text) : Adds [] (r.expand form t) := by
  unfold expand
  exact (adds_lift _).bind fun tree => (r.adds_frame form).bind fun f => adds_lift _

theorem related_adds : Acts.Related
    (fun _ deeds x (_ : StateT (Progress Frame) m _) => Adds (deeds.filterMap Deed.request?) x)
    r.acts r.acts where
  pure := adds_pure
  bind hx hf := by
    rw [List.filterMap_append]
    exact hx.bind hf
  fill := r.adds_expand
  sanitize _ := adds_lift _
  reprocess _ := adds_lift _
  report _ := adds_modify fun _ => rfl
  notice _ := adds_lift _

/-! ## What a render reports -/

theorem adds_run (fragment : Text) :
    Adds (r.settings.requests fragment)
      (r.serializer.run r.context (Html.parse r.context fragment)) := by
  have hrun := r.related_adds.run r.settings fragment
  rw [requests_deeds] at hrun
  exact hrun

/-- **A render reports what its fragment asks for**, whatever a service and a sanitizer answer. -/
theorem gives_render (fragment : Text) :
    Gives (fun out => out.2 = r.settings.requests fragment) (r.render fragment) := by
  unfold render
  refine (gives_of_forall (fun _ => trivial) _).bind fun _ _ => ?_
  exact (r.adds_run fragment {}).bind fun out hout => gives_pure hout

end Renderer

/-! ## What is collected -/

/-- Whether every name that is asked for is collected where it was asked for first. -/
structure Collected (rs : List ModuleRequest) (ms : Modules) : Prop where
  scripts : ms.scripts = (ModuleRequest.names .script rs).eraseDups
  styles : ms.styles = (ModuleRequest.names .style rs).eraseDups

theorem addName_eraseDups (names : List Text) (name : Text) :
    Modules.addName names.eraseDups name = (names ++ [name]).eraseDups := by
  rw [eraseDups_concat, Modules.addName]
  by_cases h : name ∈ names
  · rw [if_pos (List.mem_eraseDups.2 h), if_pos h, List.append_nil]
  · rw [if_neg (fun hmem => h (List.mem_eraseDups.1 hmem)), if_neg h]

theorem names_append (kind : ModuleKind) (rs : List ModuleRequest) (r : ModuleRequest) :
    ModuleRequest.names kind (rs ++ [r]) =
      ModuleRequest.names kind rs ++ if r.kind = kind then [r.name] else [] := by
  unfold ModuleRequest.names
  by_cases h : r.kind = kind
  · simp [h]
  · simp [h]

theorem Collected.add {rs : List ModuleRequest} {ms : Modules} (h : Collected rs ms)
    (r : ModuleRequest) : Collected (rs ++ [r]) (ms.add r) := by
  obtain ⟨kind, name⟩ := r
  cases kind with
  | script =>
    constructor
    · rw [names_append, if_pos rfl, ← addName_eraseDups, ← h.scripts]
      rfl
    · rw [names_append, if_neg nofun, List.append_nil]
      exact h.styles
  | style =>
    constructor
    · rw [names_append, if_neg nofun, List.append_nil]
      exact h.scripts
    · rw [names_append, if_pos rfl, ← addName_eraseDups, ← h.styles]
      rfl

theorem Collected.addAll {rs : List ModuleRequest} {ms : Modules} (h : Collected rs ms)
    (vs : List ModuleRequest) : Collected (rs ++ vs) (ms.addAll vs) := by
  induction vs generalizing rs ms with
  | nil =>
    rw [List.append_nil]
    exact h
  | cons v vs ih =>
    have hrest := ih (h.add v)
    rw [List.append_assoc] at hrest
    exact hrest

theorem Collected.collect {rs : List ModuleRequest} {ms : Modules} (h : Collected rs ms)
    (jobs : List (Job m)) :
    Gives (Collected (rs ++ jobs.flatMap Job.requests)) (collect ms jobs) := by
  induction jobs generalizing rs ms with
  | nil => exact gives_pure (by simpa using h)
  | cons job jobs ih =>
    have hrender := job.renderer.gives_render job.fragment
    unfold Render.collect
    rw [List.foldlM_cons, bind_assoc]
    refine hrender.bind fun out hout => ?_
    rw [pure_bind, List.flatMap_cons, ← List.append_assoc]
    exact ih (hout ▸ h.addAll out.2)

/-- **Renders that share what they collect** report what their fragments ask for, and collect every
name where it was asked for first, whatever their services and sanitizers answer. -/
theorem gives_collect (jobs : List (Job m)) :
    (∀ job ∈ jobs, Gives (fun out => out.2 = job.requests)
      (job.renderer.render job.fragment)) ∧
    Gives (fun ms =>
      ms.scripts = (ModuleRequest.names .script (jobs.flatMap Job.requests)).eraseDups ∧
      ms.styles = (ModuleRequest.names .style (jobs.flatMap Job.requests)).eraseDups)
      (collect {} jobs) := by
  have hnone : Collected [] {} := ⟨rfl, rfl⟩
  refine ⟨fun job _ => job.renderer.gives_render job.fragment, ?_⟩
  have hcollected := hnone.collect jobs
  rw [← bind_pure (collect {} jobs)]
  exact hcollected.bind fun ms hms => gives_pure ⟨hms.scripts, hms.styles⟩

/-! ## Two renders -/

/-- Directives inside one another, in a body that is processed again, in foreign content, in another
case, and closed by the end of another element. -/
def nestedDirectives : Text :=
  ("<p data-mw-wikitext><load module=\"{{{1}}}\" type=\" STYLE \">" ++
    "<LOAD module='a&amp;b'/></load><svg><load module=b></p>").toList

/-- Directives that are open to the end, one of them without a module. -/
def openDirectives : Text := "<load module=b type=style>x<load module=b><load>".toList

/-- A render of fixed arguments, and one over a service that knows no templates. -/
def directiveJobs : List (Job Id) :=
  let settings : Settings := { resourceDirective := "load".toList }
  let templates : Renderer Id Template Bindings :=
    (Expander.escaping (.positional ["v".toList])).renderer settings fun _ => pure ⟨⟩
  let substitution : Renderer Id Text Bindings :=
    { settings, service := .substituting .empty, sanitize := pure, notice := fun _ => pure ⟨⟩ }
  [⟨templates, nestedDirectives⟩, ⟨substitution, openDirectives⟩]

theorem gives_collect_directiveJobs :
    directiveJobs.map (fun job => (job.renderer.render job.fragment).run.2) =
      [[⟨.script, "a&b".toList⟩, ⟨.script, "b".toList⟩, ⟨.style, "{{{1}}}".toList⟩],
        [⟨.script, "b".toList⟩, ⟨.style, "b".toList⟩]] ∧
    (collect {} directiveJobs).run.scripts = ["a&b".toList, "b".toList] ∧
    (collect {} directiveJobs).run.styles = ["{{{1}}}".toList, "b".toList] := by
  obtain ⟨hreports, hcollected⟩ := gives_collect directiveJobs
  have hrequests : directiveJobs.map Job.requests =
      [[⟨.script, "a&b".toList⟩, ⟨.script, "b".toList⟩, ⟨.style, "{{{1}}}".toList⟩],
        [⟨.script, "b".toList⟩, ⟨.style, "b".toList⟩]] := by decide +kernel
  have hrendered : directiveJobs.map (fun job => (job.renderer.render job.fragment).run.2) =
      directiveJobs.map Job.requests := by
    apply List.map_congr_left
    intro job hjob
    exact (hreports job hjob).id
  have hmodules := hcollected.id
  rw [List.flatMap_def, hrequests] at hmodules
  refine ⟨hrendered.trans hrequests, ?_, ?_⟩
  · exact hmodules.1.trans (by decide +kernel)
  · exact hmodules.2.trans (by decide +kernel)

end Render

end Stencil
