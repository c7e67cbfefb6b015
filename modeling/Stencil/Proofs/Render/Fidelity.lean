import Stencil.Proofs.Render.Acts

/-!
# Fragments without markers

A render changes a fragment only where placeholders stand. `Renderer.unfilled` is HTML with the four
things a render does besides filling in: it drops directives, escapes the brackets of styles,
filters URLs, and processes the contents of marked elements. `render_unmarked` says that a fragment
in which no text and no value has a marker is written by it, and that the service is asked for
nothing but the processing of contents.
-/

namespace Stencil.Render

open Html (Serializer)

/-! ### Markers -/

/-- Whether no value of the element has a marker. -/
def Unmarked (e : Html.Element) : Prop := ∀ a ∈ e.attributes, hasMarker a.2 = false

/-- Whether an event brings neither a text nor a value with a marker. -/
def EventUnmarked : Html.Event → Prop
  | .text t => hasMarker t = false
  | .leaf e | .enter e => Unmarked e
  | .comment _ | .leave | .notice _ => True

instance : DecidablePred EventUnmarked
  | .text t => inferInstanceAs (Decidable (hasMarker t = false))
  | .leaf e | .enter e => inferInstanceAs (Decidable (∀ a ∈ e.attributes, hasMarker a.2 = false))
  | .comment _ | .leave | .notice _ => .isTrue trivial

/-- Whether a service is asked to process text as block markup. -/
def Service.Call.IsReprocess {Tree : Type} (call : Service.Call Tree) : Prop :=
  ∃ t, call = .reprocess t

namespace Renderer

variable {m : Type → Type} {Tree Frame : Type} (r : Renderer m Tree Frame)

/-! ### The serializer that fills nothing in -/

/-- What the log is told of a directive. -/
def directiveNotice (e : Html.Element) : Notice :=
  match e.attributes.get? "module".toList with
  | some name =>
    debug ("recorded ".toList ++
      (ModuleKind.ofType (e.attributes.get? "type".toList)).label.toList ++
      " module ".toList ++ name)
  | none => debug "resource directive without module dropped".toList

/-- The attributes of an element that are written: all but the one that marks its contents. -/
def keptAttributes (e : Html.Element) : Html.Attributes :=
  e.attributes.filter fun a => !(a.1 = r.settings.bodyMarker : Bool)

/-- The attributes with URLs that are not allowed replaced. -/
def filteredAttributes (as : Html.Attributes) : Html.Attributes :=
  as.map fun (name, value) =>
    (name, if isUrlAttribute name then r.settings.url.filter value else value)

/-- What the log is told of the URLs that are not allowed. -/
def rejections (as : Html.Attributes) : List Notice :=
  (as.filter fun a => isUrlAttribute a.1 && !r.settings.url.allows a.2).map fun a =>
    debug ("rejected url ".toList ++ Text.quote a.2)

section

variable [Monad m]

/-- HTML without directives, with the brackets of styles escaped, URLs filtered, and the contents of
marked elements processed. -/
def unfilled : Html.Serializer m :=
  { Html.Serializer.plain r.notice with
    text := fun parent t =>
      pure (if parent.isHtmlNamed "style".toList then Html.escapeAngles t
        else Html.textIn parent t)
    element := fun _ e contents =>
      if Ascii.sameName e.name r.settings.resourceDirective then do
        r.notice (directiveNotice e)
        return []
      else do
        (r.rejections (r.keptAttributes e)).forM r.notice
        let contents ←
          if e.attributes.contains r.settings.bodyMarker then r.service.reprocess contents
          else pure contents
        let attributes := r.filteredAttributes (r.keptAttributes e)
        return Html.elementText { e with attributes } contents }

/-- A renderer whose service also records what it is asked. -/
def traced : Renderer (StateT (List (Service.Call Tree)) m) Tree Frame where
  settings := r.settings
  service := r.service.traced
  sanitize t := r.sanitize t
  notice n := r.notice n

end

/-! ### What is kept -/

/-- What a render writes of an unmarked text. -/
def unmarkedText (parent : Html.Element) (t : Text) : Text :=
  if r.place parent = .style then Html.escapeAngles t else Html.textIn parent t

/-- Whether the element is both a style and a directive: what is written in it is not kept. -/
def ignores (e : Html.Element) : Bool :=
  Ascii.sameName e.name r.settings.resourceDirective && e.isHtmlNamed "style".toList

/-- A sheet, blank if what is on it is not kept. -/
def seenSheet (s : Html.Sheet) : Html.Sheet :=
  if r.ignores s.element then { s with written := [] } else s

/-- A canvas as far as what is on it is kept. -/
def seen (c : Html.Canvas) : Html.Canvas :=
  { top := r.seenSheet c.top, outer := c.outer.map r.seenSheet }

/-- Whether no value of an open element has a marker. -/
def CanvasUnmarked (c : Html.Canvas) : Prop :=
  Unmarked c.current ∧ ∀ s ∈ c.outer, Unmarked s.element

@[simp] theorem seenSheet_element (s : Html.Sheet) : (r.seenSheet s).element = s.element := by
  unfold seenSheet
  split <;> rfl

theorem seenSheet_eq {s s' : Html.Sheet} : r.seenSheet s = r.seenSheet s' ↔
    s.element = s'.element ∧ (r.ignores s.element = false → s.written = s'.written) := by
  obtain ⟨e, written⟩ := s
  obtain ⟨e', written'⟩ := s'
  constructor
  · intro h
    have he : e = e' := by simpa using congrArg Html.Sheet.element h
    subst he
    refine ⟨rfl, fun hi => ?_⟩
    change r.ignores e = false at hi
    simpa [seenSheet, hi] using h
  · rintro ⟨rfl, hwritten⟩
    cases hi : r.ignores e with
    | true => simp [seenSheet, hi]
    | false => rw [show written = written' from hwritten hi]

theorem seen_eq {c c' : Html.Canvas} : r.seen c = r.seen c' ↔
    r.seenSheet c.top = r.seenSheet c'.top ∧
      c.outer.map r.seenSheet = c'.outer.map r.seenSheet := by
  rw [seen, seen, Html.Canvas.mk.injEq]

theorem current_eq_of_seen {c c' : Html.Canvas} (h : r.seen c = r.seen c') :
    c.current = c'.current := (r.seenSheet_eq.1 (r.seen_eq.1 h).1).1

theorem seen_add {c c' : Html.Canvas} {t t' : Text} (h : r.seen c = r.seen c')
    (ht : r.ignores c.current = false → t = t') : r.seen (c.add t) = r.seen (c'.add t') := by
  obtain ⟨htop, houter⟩ := r.seen_eq.1 h
  obtain ⟨he, hwritten⟩ := r.seenSheet_eq.1 htop
  refine r.seen_eq.2 ⟨r.seenSheet_eq.2 ⟨he, fun hi => ?_⟩, houter⟩
  change t :: c.top.written = t' :: c'.top.written
  rw [ht hi, hwritten hi]

theorem seen_enter {c c' : Html.Canvas} (h : r.seen c = r.seen c') (e : Html.Element) :
    r.seen (c.enter e) = r.seen (c'.enter e) := by
  obtain ⟨htop, houter⟩ := r.seen_eq.1 h
  refine r.seen_eq.2 ⟨rfl, ?_⟩
  change r.seenSheet c.top :: _ = r.seenSheet c'.top :: _
  rw [htop, houter]

theorem unmarkedText_of_not_ignores {parent : Html.Element} (h : r.ignores parent = false)
    (t : Text) : r.unmarkedText parent t =
      if parent.isHtmlNamed "style".toList then Html.escapeAngles t else Html.textIn parent t := by
  unfold unmarkedText
  cases hname : Ascii.sameName parent.name r.settings.resourceDirective with
  | false => simp only [place, Place.inside_eq_style hname]
  | true =>
    have hstyle : parent.isHtmlNamed "style".toList = false := by
      rw [ignores, hname, Bool.true_and] at h
      exact h
    have hplace : ¬r.place parent = .style := by
      rw [place, Place.inside_eq_directive.2 hname]
      exact Place.noConfusion
    rw [hstyle, if_neg hplace, if_neg Bool.false_ne_true]

/-- The element around everything that is written on a canvas. -/
def outermost (c : Html.Canvas) : Html.Element := (c.outer.getLastD c.top).element

theorem outermost_add (c : Html.Canvas) (t : Text) : outermost (c.add t) = outermost c := by
  obtain ⟨top, _ | ⟨parent, outer⟩⟩ := c <;> rfl

theorem outermost_cons (top parent : Html.Sheet) (outer : List Html.Sheet) :
    outermost ⟨top, parent :: outer⟩ = outermost ⟨parent, outer⟩ := by
  rw [outermost, outermost, List.getLastD_cons]

/-- What stands in the context element is kept, since it cannot be a style. -/
theorem not_ignores_context (h : r.settings.check? = none) : r.ignores r.context = false := by
  have hcontext : Settings.checkContext? r.settings.contextElement = none := by
    unfold Settings.check? at h
    simp only [Option.orElse_eq_orElse, Option.orElse_eq_or, Option.or_eq_none_iff] at h
    exact h.2.1
  have hstyle : r.settings.contextElement ≠ "style".toList := by
    intro hname
    rw [hname] at hcontext
    exact absurd hcontext (by decide)
  rw [ignores, Html.Element.isHtmlNamed, context, decide_eq_false hstyle, Bool.and_false,
    Bool.and_false]

/-! ### Parts without markers -/

variable [Monad m]

theorem text_unmarked {t : Text} (ht : hasMarker t = false) (parent : Html.Element) :
    r.text parent t = pure (r.unmarkedText parent t) :=
  r.acts.text_unmarked ht

/-- What is written in an element is the same on canvases that look the same. -/
theorem unfilled_element_eq {s s' : Html.Sheet} (h : r.seenSheet s = r.seenSheet s')
    (parent parent' : Html.Element) :
    r.unfilled.element parent s.element s.contents =
      r.unfilled.element parent' s'.element s'.contents := by
  obtain ⟨he, hwritten⟩ := r.seenSheet_eq.1 h
  rw [← he]
  cases hi : r.ignores s.element with
  | true =>
    have hname := (Bool.and_eq_true_iff.1 hi).1
    unfold unfilled
    simp only
    rw [if_pos hname, if_pos hname]
  | false =>
    rw [Html.Sheet.contents, Html.Sheet.contents, hwritten hi]
    rfl

variable [LawfulMonad m]

theorem attributeValue_unmarked {value : Text} (hvalue : hasMarker value = false) (name : Text) :
    r.attributeValue name value = (do
      if isUrlAttribute name && !r.settings.url.allows value then
        r.notice (debug ("rejected url ".toList ++ Text.quote value))
      return if isUrlAttribute name then r.settings.url.filter value else value) := by
  have hfill : r.acts.fillAttribute name value = pure value := by
    unfold Acts.fillAttribute
    exact if_pos (by rw [hvalue]; rfl)
  rw [attributeValue, Acts.attributeValue, hfill, pure_bind]
  cases hurl : isUrlAttribute name with
  | true => rfl
  | false =>
    rw [Bool.false_and, if_neg Bool.false_ne_true, if_neg Bool.false_ne_true,
      if_neg Bool.false_ne_true]

/-- Attributes without markers are written as they are, but for their URLs. -/
theorem forgets_attributes {as : Html.Attributes} (has : ∀ a ∈ as, hasMarker a.2 = false) :
    Forgets
      (as.mapM fun (name, value) => do
        return (name, ← r.attributeValue name value) : StateT (Progress Frame) m Html.Attributes)
      (do
        (r.rejections as).forM r.notice
        return r.filteredAttributes as) := by
  induction as with
  | nil =>
    change Forgets (pure []) (pure PUnit.unit >>= fun _ => pure [])
    rw [pure_bind]
    exact forgets_pure []
  | cons a as ih =>
    obtain ⟨hvalue, hvalues⟩ := List.forall_mem_cons.1 has
    obtain ⟨name, value⟩ := a
    have hrest := (ih hvalues).bind fun written =>
      forgets_pure ((name, if isUrlAttribute name then r.settings.url.filter value else value) ::
        written)
    rw [bind_assoc] at hrest
    simp only [pure_bind] at hrest
    have hfirst := r.attributeValue_unmarked (show hasMarker value = false from hvalue) name
    rw [List.mapM_cons, rejections, List.filter_cons]
    cases hurl : isUrlAttribute name && !r.settings.url.allows value with
    | true =>
      rw [hurl, if_pos rfl] at hfirst
      rw [if_pos rfl, List.map_cons]
      simp only [List.forM, hfirst, bind_assoc, pure_bind]
      exact Forgets.bind (forgets_lift _) fun _ => hrest
    | false =>
      rw [hurl, if_neg Bool.false_ne_true] at hfirst
      rw [if_neg Bool.false_ne_true]
      simp only [hfirst, pure_bind]
      exact hrest

theorem forgets_request (e : Html.Element) :
    Forgets (r.acts.request e) (r.notice (directiveNotice e)) := by
  unfold Acts.request directiveNotice
  cases e.attributes.get? "module".toList with
  | none => exact forgets_lift _
  | some name =>
    refine (congrArg (Forgets _) ?_).mp
      (Forgets.bind (forgets_lift (r.notice _)) fun _ => forgets_modify _)
    exact bind_pure (r.notice _)

theorem forgets_element {e : Html.Element} (he : Unmarked e) (parent : Html.Element)
    (contents : Text) :
    Forgets (r.element e contents) (r.unfilled.element parent e contents) := by
  rw [element, Acts.element, unfilled]
  dsimp only
  cases hname : Ascii.sameName e.name r.settings.resourceDirective with
  | true =>
    rw [if_pos (Place.inside_eq_directive.2 hname), if_pos rfl]
    exact (r.forgets_request e).bind fun _ => forgets_pure []
  | false =>
    have hplace : ¬Place.inside r.settings.resourceDirective e = .directive := by
      rw [Place.inside_eq_directive, hname]
      exact Bool.false_ne_true
    have hkept : ∀ a ∈ r.keptAttributes e, hasMarker a.2 = false := by
      intro a ha
      exact he a (List.mem_filter.1 ha).1
    have hwritten (x : StateT (Progress Frame) m Text) (y : m Text) (hcontents : Forgets x y) :=
      (r.forgets_attributes hkept).bind fun attributes => hcontents.bind fun contents =>
        forgets_pure (Html.elementText { e with attributes } contents)
    simp only [bind_assoc, pure_bind] at hwritten
    rw [if_neg hplace, if_neg Bool.false_ne_true, Acts.contents]
    cases hmarked : e.attributes.contains r.settings.bodyMarker with
    | true =>
      have hany : (e.attributes.any fun a => a.1 = r.settings.bodyMarker) = true := hmarked
      rw [if_pos hany, if_pos rfl]
      exact hwritten _ _ (forgets_lift _)
    | false =>
      have hany : ¬(e.attributes.any fun a => a.1 = r.settings.bodyMarker) = true :=
        ne_true_of_eq_false hmarked
      rw [if_neg hany, if_neg Bool.false_ne_true]
      exact hwritten _ _ (forgets_pure _)

/-! ### Runs -/

/-- **Events without markers are written without the state of the render.** -/
theorem forgets_steps {events : List Html.Event} (hevents : ∀ event ∈ events, EventUnmarked event)
    {c c' : Html.Canvas} (hclose : Html.Event.close c.outer.length events = true)
    (hc : CanvasUnmarked c) (hlast : r.ignores (outermost c) = false)
    (hseen : r.seen c = r.seen c') :
    Forgets ((·.top.contents) <$> r.serializer.steps c events)
      ((·.top.contents) <$> r.unfilled.steps c' events) := by
  -- The canvases may differ in the text of a style that is a directive, which is dropped with it.
  induction events generalizing c c' with
  | nil =>
    obtain ⟨top, outer⟩ := c
    obtain ⟨htop, -⟩ := r.seen_eq.1 hseen
    have houter : outer = [] := List.length_eq_zero_iff.1 (of_decide_eq_true hclose)
    subst houter
    have hcontents : top.contents = c'.top.contents :=
      congrArg (·.reverse.flatten) ((r.seenSheet_eq.1 htop).2 hlast)
    change Forgets (_ <$> pure (Html.Canvas.mk top [])) (_ <$> pure c')
    rw [map_pure, map_pure, ← hcontents]
    exact forgets_pure _
  | cons event events ih =>
    obtain ⟨hevent, hrest⟩ := List.forall_mem_cons.1 hevents
    have hadd {c c' : Html.Canvas} (hclose : Html.Event.close c.outer.length events = true)
        (hc : CanvasUnmarked c) (hlast : r.ignores (outermost c) = false)
        (hseen : r.seen c = r.seen c') (w w' : Text) (hw : r.ignores c.current = false → w = w') :
        Forgets ((·.top.contents) <$> r.serializer.steps (c.add w) events)
          ((·.top.contents) <$> r.unfilled.steps (c'.add w') events) := by
      refine ih hrest hclose hc ?_ (r.seen_add hseen hw)
      rw [outermost_add]
      exact hlast
    cases event with
    | text t =>
      rw [Html.Event.close_text] at hclose
      rw [Serializer.map_steps_text, Serializer.map_steps_text]
      change Forgets (r.text c.current t >>= _) (pure _ >>= _)
      rw [r.text_unmarked hevent, pure_bind, pure_bind]
      refine hadd hclose hc hlast hseen _ _ fun hi => ?_
      rw [← r.current_eq_of_seen hseen]
      exact r.unmarkedText_of_not_ignores hi t
    | comment t =>
      rw [Html.Event.close_comment] at hclose
      rw [Serializer.map_steps_comment, Serializer.map_steps_comment]
      exact (forgets_pure _).bind fun w => hadd hclose hc hlast hseen w w fun _ => rfl
    | leaf e =>
      rw [Html.Event.close_leaf] at hclose
      rw [Serializer.map_steps_leaf, Serializer.map_steps_leaf]
      exact (r.forgets_element hevent _ _).bind fun w => hadd hclose hc hlast hseen w w fun _ => rfl
    | enter e =>
      have hopen : CanvasUnmarked (c.enter e) := ⟨hevent, List.forall_mem_cons.2 hc⟩
      rw [Html.Event.close] at hclose
      rw [Serializer.map_steps_enter, Serializer.map_steps_enter]
      refine ih hrest hclose hopen ?_ (r.seen_enter hseen e)
      rw [← hlast]
      exact congrArg _ (outermost_cons _ _ _)
    | leave =>
      obtain ⟨top, outer⟩ := c
      obtain ⟨top', outer'⟩ := c'
      obtain ⟨htop, houter⟩ := r.seen_eq.1 hseen
      cases outer with
      | nil =>
        rw [List.length_nil, Html.Event.close] at hclose
        exact absurd hclose Bool.false_ne_true
      | cons parent outer =>
        cases outer' with
        | nil => exact absurd houter (List.cons_ne_nil _ _)
        | cons parent' outer' =>
          obtain ⟨hparent, houter⟩ := List.cons.inj houter
          have hclosed : CanvasUnmarked ⟨parent, outer⟩ := List.forall_mem_cons.1 hc.2
          rw [List.length_cons, Html.Event.close] at hclose
          rw [outermost_cons] at hlast
          rw [Serializer.map_steps_leave, Serializer.map_steps_leave,
            ← r.unfilled_element_eq htop parent.element]
          exact (r.forgets_element hc.1 _ _).bind fun w =>
            hadd hclose hclosed hlast (r.seen_eq.2 ⟨hparent, houter⟩) w w fun _ => rfl
    | notice n =>
      rw [Html.Event.close_notice] at hclose
      rw [Serializer.map_steps_notice, Serializer.map_steps_notice]
      exact Forgets.bind (forgets_lift _) fun _ => ih hrest hclose hc hlast hseen

theorem forgets_run (hvalid : r.settings.check? = none) {fragment : Text}
    (hunmarked : ∀ event ∈ Html.parse r.context fragment, EventUnmarked event) :
    Forgets (r.serializer.run r.context (Html.parse r.context fragment))
      (r.unfilled.run r.context (Html.parse r.context fragment)) := by
  let blank : Html.Canvas := ⟨⟨r.context, []⟩, []⟩
  have hblank : CanvasUnmarked blank :=
    ⟨fun _ h => absurd h List.not_mem_nil, fun _ h => absurd h List.not_mem_nil⟩
  have hclose : Html.Event.close 0 (Html.parse r.context fragment) = true :=
    Html.close_parse rfl fragment
  have hsteps : Forgets
      ((·.top.contents) <$> r.serializer.steps blank (Html.parse r.context fragment))
      ((·.top.contents) <$> r.unfilled.steps blank (Html.parse r.context fragment)) :=
    r.forgets_steps hunmarked hclose hblank (r.not_ignores_context hvalid) rfl
  have hrun {n : Type → Type} [Monad n] [LawfulMonad n] (z : Html.Serializer n)
      (hstart : z.start r.context = pure []) : z.run r.context (Html.parse r.context fragment) =
        (·.top.contents) <$> z.steps blank (Html.parse r.context fragment) := by
    rw [Html.Serializer.run, hstart, pure_bind, ← bind_pure_comp]
    rfl
  rw [hrun r.serializer rfl, hrun r.unfilled rfl]
  exact hsteps

theorem fst_render (hvalid : r.settings.check? = none) {fragment : Text}
    (hunmarked : ∀ event ∈ Html.parse r.context fragment, EventUnmarked event) :
    Prod.fst <$> r.render fragment = (do
      r.notice (r.startNotice fragment)
      r.unfilled.run r.context (Html.parse r.context fragment)) := by
  have hrun := r.forgets_run hvalid hunmarked {}
  rw [render, renderBy, map_bind]
  simp only [map_bind, map_pure]
  rw [← hrun]
  simp only [← bind_pure_comp]
  rfl

/-! ### What the service is asked -/

theorem keeps_reprocess (t : Text) :
    Keeps (fun log => ∀ call ∈ log, call.IsReprocess) (r.traced.service.reprocess t) := by
  refine Keeps.bind (keeps_modify fun log hlog call hcall => ?_) fun _ => keeps_lift _
  rcases List.mem_append.1 hcall with hcall | hcall
  · exact hlog call hcall
  · exact ⟨t, List.mem_singleton.1 hcall⟩

theorem keeps_unfilled_element (parent e : Html.Element) (t : Text) :
    Keeps (fun log => ∀ call ∈ log, call.IsReprocess) (r.traced.unfilled.element parent e t) := by
  unfold unfilled
  simp only
  split
  · exact Keeps.bind (keeps_lift _) fun _ => keeps_pure _
  · refine Keeps.bind (Keeps.forM (fun _ => keeps_lift _) _) fun _ => ?_
    split
    · exact (r.keeps_reprocess t).bind fun _ => keeps_pure _
    · exact Keeps.bind (keeps_pure _) fun _ => keeps_pure _

theorem keeps_unfilled_run (context : Html.Element) (events : List Html.Event) :
    Keeps (fun log => ∀ call ∈ log, call.IsReprocess) (r.traced.unfilled.run context events) := by
  have hsequential := sequential_keeps (W := Unit) (m := m)
    fun log : List (Service.Call Tree) => ∀ call ∈ log, call.IsReprocess
  exact hsequential.run r.traced.unfilled r.traced.unfilled (fun _ => [])
    (fun _ _ => keeps_pure _) r.keeps_unfilled_element (fun _ _ => keeps_pure _)
    (fun _ => keeps_lift _) (keeps_pure _) events

/-- **A fragment without markers is written by the serializer that fills nothing in**, from whatever
the service and the sanitizer answer, and of all calls the service only gets those to process the
contents of marked elements. -/
theorem render_unmarked (hvalid : r.settings.check? = none) (fragment : Text)
    (hunmarked : ∀ event ∈ Html.parse r.context fragment, EventUnmarked event) :
    Prod.fst <$> r.render fragment = (do
      r.notice (r.startNotice fragment)
      r.unfilled.run r.context (Html.parse r.context fragment)) ∧
    ∃ y : m { p : Text × List (Service.Call Tree) // ∀ call ∈ p.2, call.IsReprocess },
      Subtype.val <$> y = (Prod.fst <$> r.traced.render fragment).run [] := by
  refine ⟨r.fst_render hvalid hunmarked, ?_⟩
  have htraced := r.traced.fst_render hvalid hunmarked
  rw [htraced]
  exact (Keeps.bind (keeps_lift _) fun _ => r.keeps_unfilled_run _ _) [] fun _ hcall =>
    absurd hcall List.not_mem_nil

/-- The renderer of fixed arguments with the settings and the processor of this library. -/
def escaping : Renderer Id Template Bindings :=
  (Expander.escaping .empty).renderer {} fun _ => pure ()

/-- A fragment with a directive, a marked element, a style and a URL that is not allowed. -/
def unmarkedFragment : Text :=
  "<mw:resourceloader>a</mw:resourceloader><p data-mw-wikitext><a href=b>c</p><style>d>e".toList

theorem render_unmarked_unmarkedFragment :
    escaping.settings.check? = none ∧
    (∀ event ∈ Html.parse escaping.context unmarkedFragment, EventUnmarked event) ∧
    (escaping.render unmarkedFragment).1 =
      escaping.unfilled.run escaping.context (Html.parse escaping.context unmarkedFragment) := by
  have hvalid : escaping.settings.check? = none := by decide +kernel
  have hunmarked : ∀ event ∈ Html.parse escaping.context unmarkedFragment, EventUnmarked event := by
    decide +kernel
  exact ⟨hvalid, hunmarked, (escaping.render_unmarked hvalid unmarkedFragment hunmarked).1⟩

end Renderer

end Stencil.Render
