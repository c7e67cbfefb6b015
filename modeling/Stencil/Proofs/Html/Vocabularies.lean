import Stencil.Proofs.Html.Calls
import Stencil.Proofs.Html.Rewrite
import Stencil.Proofs.Html.Trail

/-!
# Vocabularies

Where the elements of HTML, SVG and MathML stand. Foreign content only starts with its root: a
serializer is asked for no other SVG or MathML element where contents are HTML. And it is asked for
an HTML element where contents are not HTML just if some end tag is recovered there
(`vocabularies_calls`): nothing else puts an HTML element into foreign content.
-/

namespace Stencil.Html

/-- An HTML element stands where contents are HTML. -/
def HtmlWithin (parent e : Element) : Prop := e.isHtml = true → parent.holdsHtml = true

/-- A foreign element that stands where contents are HTML is the root of its vocabulary. -/
def RootWithin (parent e : Element) : Prop :=
  e.isHtml = false → parent.holdsHtml = true →
    e.name = "svg".toList ∧ e.ns = .svg ∨ e.name = "math".toList ∧ e.ns = .math

/-! ## What is asked for inside open elements -/

/-- The requests that events make inside the open elements `S` of a context. -/
def Event.callsWithin (context : Element) (S : List Element) (es : List Event) : List Call :=
  Event.calls (S.headD context) (S ++ [context]).tail es

namespace Event

variable (context : Element) (S : List Element) (es : List Event)

theorem callsWithin_enter (e : Element) :
    callsWithin context S (.enter e :: es) = callsWithin context (e :: S) es := by
  cases S <;> rfl

theorem callsWithin_leave (e : Element) : callsWithin context (e :: S) (.leave :: es) =
    .element (S.headD context) e [] :: callsWithin context S es := by
  cases S <;> rfl

theorem callsWithin_append {S' : List Element} (h : trail? S es = some S') (es' : List Event) :
    callsWithin context S (es ++ es') = callsWithin context S es ++ callsWithin context S' es' := by
  induction es generalizing S with
  | nil =>
    obtain rfl : S = S' := by simpa using h
    rfl
  | cons event es ih =>
    cases event with
    | text t =>
      exact congrArg (Call.text (S.headD context) t :: ·) (ih S (by simpa using h))
    | comment t =>
      exact congrArg (Call.comment (S.headD context) t :: ·) (ih S (by simpa using h))
    | leaf e =>
      exact congrArg (Call.element (S.headD context) e [] :: ·) (ih S (by simpa using h))
    | enter e =>
      rw [List.cons_append, callsWithin_enter, callsWithin_enter]
      exact ih (e :: S) (by simpa using h)
    | leave =>
      cases S with
      | nil => cases h
      | cons e S =>
        rw [List.cons_append, callsWithin_leave, callsWithin_leave, List.cons_append]
        exact congrArg (Call.element (S.headD context) e [] :: ·) (ih S h)
    | notice n => exact ih S (by simpa using h)

end Event

theorem Builder.mem_callsWithin_build {b : Builder} {ts : List Token} {turn : Builder × Token}
    (hturn : turn ∈ b.turns ts) {c : Call}
    (hc : c ∈ Event.callsWithin b.context turn.1.stack (turn.1.push turn.2).2) :
    c ∈ Event.callsWithin b.context b.stack (b.build ts) := by
  induction ts generalizing b with
  | nil => cases hturn
  | cons t ts ih =>
    have htrail : Event.trail? b.stack (b.push t).2 = some (b.push t).1.stack := trail_step b t
    rw [build, Event.callsWithin_append _ _ _ htrail]
    rcases List.mem_cons.1 hturn with rfl | hturn
    · exact List.mem_append_left _ hc
    · exact List.mem_append_right _ (ih hturn hc)

/-! ## From walks to requests -/

variable {Q : Element → Element → Prop} {context : Element}

/-- Whether `Q` holds of all open elements, each with the element around it. -/
def Nested (Q : Element → Element → Prop) (context : Element) : List Element → Prop
  | [] => True
  | e :: S => Q (S.headD context) e ∧ Nested Q context S

/-- What holds of every element that is opened on a walk, and the element around it, holds of every
element that is asked for. -/
theorem of_mem_callsWithin {S S' : List Element} {es : List Event}
    (h : Walk (fun S e => Q (S.headD context) e) S es S') (hS : Nested Q context S)
    {parent e : Element} {contents : Text}
    (hmem : .element parent e contents ∈ Event.callsWithin context S es) : Q parent e := by
  induction h with
  | stay => cases hmem
  | text _ _ ih =>
    rcases List.mem_cons.1 hmem with hcall | hmem
    · cases hcall
    · exact ih hS hmem
  | comment _ _ ih =>
    rcases List.mem_cons.1 hmem with hcall | hmem
    · cases hcall
    · exact ih hS hmem
  | notice _ ih => exact ih hS hmem
  | leaf he _ _ ih =>
    rcases List.mem_cons.1 hmem with hcall | hmem
    · cases hcall
      exact he
    · exact ih hS hmem
  | enter he _ _ _ ih =>
    rw [Event.callsWithin_enter] at hmem
    exact ih ⟨he, hS⟩ hmem
  | leave _ ih =>
    rw [Event.callsWithin_leave] at hmem
    rcases List.mem_cons.1 hmem with hcall | hmem
    · cases hcall
      exact hS.1
    · exact ih hS.2 hmem
  | @body S S' d c es he _ _ _ ih =>
    have hbody : Event.callsWithin context (d :: S) (Event.ofText c ++ .leave :: es) =
        (Event.ofText c).map (fun _ => .text d c) ++
          .element (S.headD context) d [] :: Event.callsWithin context S es := by
      unfold Event.ofText
      split
      · exact Event.callsWithin_leave context S es d
      · exact congrArg (Call.text d c :: ·) (Event.callsWithin_leave context S es d)
    rw [Event.callsWithin_enter, hbody] at hmem
    rcases List.mem_append.1 hmem with hcall | hmem
    · obtain ⟨_, _, hcall⟩ := List.mem_map.1 hcall
      cases hcall
    · rcases List.mem_cons.1 hmem with hcall | hmem
      · cases hcall
        exact he
      · exact ih hS hmem

/-! ## Where elements are inserted -/

namespace Builder

variable {b : Builder} {t : Token} {S : List Element} {e : Element}

/-- A foreign element is inserted in foreign content, or it is a root. -/
theorem rootWithin_of_inserted (h : Inserted b t S e) : RootWithin (S.headD b.context) e := by
  intro hforeign hholds
  cases h with
  | html => cases hforeign
  | @root name ns as slash _ _ hroot =>
    rw [foreign_eq]
    rcases hroot with ⟨rfl, rfl⟩ | ⟨rfl, rfl⟩
    · exact .inl ⟨(by decide +kernel : spell .svg "svg".toList = "svg".toList), rfl⟩
    · exact .inr ⟨rfl, rfl⟩
  | nested hcurrent => exact absurd (hcurrent.symm.trans hholds) Bool.false_ne_true
  | recovered => cases hforeign

/-- An HTML element is inserted where contents are HTML, unless an end tag is recovered. -/
theorem htmlWithin_of_inserted (h : Inserted b t S e)
    (hrecovers : recoversInForeign (b, t) = false) : HtmlWithin (S.headD b.context) e := by
  intro hhtml
  have hinserted := h
  cases h with
  | html hholds => exact hholds
  | root hholds => exact hholds
  | nested hforeign =>
    rw [Element.isHtml, ns_foreign] at hhtml
    exact absurd (of_decide_eq_true hhtml) (ns_of_not_holdsHtml hforeign)
  | recovered => exact holdsHtml_of_recovered hinserted hrecovers

/-- An end tag that is recovered in foreign content asks for an HTML element there. -/
theorem mem_calls_of_recovers {turn : Builder × Token} (h : recoversInForeign turn = true) :
    turn.1.current.holdsHtml = false ∧ ∃ name,
      .element turn.1.current { name } [] ∈
        Event.callsWithin turn.1.context turn.1.stack (turn.1.push turn.2).2 := by
  obtain ⟨b, t⟩ := turn
  cases t with
  | endTag name =>
    rw [recoversInForeign, Bool.and_eq_true, Bool.not_eq_true'] at h
    obtain ⟨hforeign, hleaf⟩ := h
    refine ⟨hforeign, name, ?_⟩
    change _ ∈ Event.callsWithin b.context b.stack (b.endTag name).events
    rcases endTag_cases b name with ⟨ns, n, hclose⟩ | ⟨-, notice, hinserts⟩
    · -- Neither a notice nor the end of an element is a leaf.
      rw [hclose, List.any_eq_true] at hleaf
      obtain ⟨event, hevent, hleaf⟩ := hleaf
      rcases List.mem_append.1 hevent with hevent | hevent
      · obtain ⟨_, -, rfl⟩ := List.mem_map.1 hevent
        cases hleaf
      · obtain ⟨_, -, rfl⟩ := List.mem_map.1 hevent
        cases hleaf
    · rw [hinserts]
      exact List.mem_cons_self
  | doctype | startTag | comment | text => cases h

end Builder

/-! ## Requests of a fragment -/

theorem of_mem_callsWithin_parse (hcontext : context.isHtml = true) (fragment : Text)
    (hQ : ∀ turn ∈ turns context fragment, ∀ S e,
      Builder.Inserted turn.1 turn.2 S e → Q (S.headD turn.1.context) e)
    {parent e : Element} {contents : Text}
    (hmem : .element parent e contents ∈
      Event.callsWithin context [] (parse context fragment)) : Q parent e := by
  have hholds : context.holdsHtml = true := by rw [Element.holdsHtml, hcontext, Bool.true_or]
  refine of_mem_callsWithin (walk_parse hholds fragment ?_) trivial hmem
  intro turn hturn _ S e he
  have hsame : turn.1.context = context := Builder.context_of_mem_turns hturn
  rw [← hsame]
  exact hQ turn hturn S e he

/-- An element is asked for, with some contents, just if the events ask for it. -/
theorem Serializer.mem_calls_iff {σ : Type} (z : Serializer (StateM σ)) (context : Element)
    (events : List Event) (s : σ) (parent e : Element) :
    (∃ contents, .element parent e contents ∈ z.calls context events s) ↔
      .element parent e [] ∈ Event.callsWithin context [] events := by
  have hbare : Call.element parent e [] ∈ (z.calls context events s).map Call.bare ↔
      .element parent e [] ∈ Event.callsWithin context [] events := by
    rw [z.bare_calls, List.mem_cons]
    exact or_iff_right Call.noConfusion
  rw [← hbare, List.mem_map]
  constructor
  · rintro ⟨contents, hmem⟩
    exact ⟨_, hmem, rfl⟩
  · rintro ⟨c, hmem, hc⟩
    cases c with
    | element p d contents =>
      cases hc
      exact ⟨contents, hmem⟩
    | start | text | comment => cases hc

/-- **Foreign content starts with its root, and holds HTML only where its contents are HTML**, up to
the elements that end tags are recovered to: of any fragment in an HTML context, every serializer is
asked for an HTML element inside a foreign one whose contents are not HTML just if some turn
recovers an end tag there. -/
theorem vocabularies_calls {context : Element} (hcontext : context.isHtml = true) (fragment : Text)
    {σ : Type} (z : Serializer (StateM σ)) (s : σ) :
    (∀ parent e contents, .element parent e contents ∈
        z.calls context (parse context fragment) s → RootWithin parent e) ∧
      ((∀ parent e contents, .element parent e contents ∈
          z.calls context (parse context fragment) s → HtmlWithin parent e) ↔
        ∀ turn ∈ turns context fragment, recoversInForeign turn = false) := by
  have hcalls := z.mem_calls_iff context (parse context fragment) s
  refine ⟨?_, ?_, ?_⟩
  · intro parent e contents hmem
    exact of_mem_callsWithin_parse hcontext fragment
      (fun _ _ _ _ he => Builder.rootWithin_of_inserted he) ((hcalls parent e).1 ⟨contents, hmem⟩)
  · intro hwithin turn hturn
    rw [← Bool.not_eq_true]
    intro hrecovers
    obtain ⟨hforeign, name, hmem⟩ := Builder.mem_calls_of_recovers hrecovers
    rw [Builder.context_of_mem_turns hturn] at hmem
    have hasked := Builder.mem_callsWithin_build hturn hmem
    rw [← Builder.consume_eq_build] at hasked
    obtain ⟨contents, hmem⟩ := (hcalls _ _).2 hasked
    exact absurd (hforeign.symm.trans (hwithin _ _ _ hmem rfl)) Bool.false_ne_true
  · intro hrecovers parent e contents hmem
    exact of_mem_callsWithin_parse hcontext fragment
      (fun turn hturn _ _ he => Builder.htmlWithin_of_inserted he (hrecovers turn hturn))
      ((hcalls parent e).1 ⟨contents, hmem⟩)

/-- Both foreign vocabularies with HTML inside them, tags that break out of them, and end tags that
are left out. -/
def foreignFragment : Text :=
  "<p><svg viewbox=1><desc><b>a</svg><math><mi><i>b<mglyph/></mi><svg/><li>c".toList

theorem vocabularies_calls_foreignFragment :
    divElement.isHtml = true ∧
      (∀ parent e contents, .element parent e contents ∈
        (Serializer.plain fun _ => pure ()).calls divElement (parse divElement foreignFragment) () →
          RootWithin parent e ∧ HtmlWithin parent e) := by
  have hcalls := vocabularies_calls (rfl : divElement.isHtml = true) foreignFragment
    (Serializer.plain fun _ => pure ()) ()
  have hturns : ∀ turn ∈ turns divElement foreignFragment, recoversInForeign turn = false := by
    decide +kernel
  refine ⟨rfl, fun parent e contents hmem => ⟨hcalls.1 parent e contents hmem, ?_⟩⟩
  exact hcalls.2.2 hturns parent e contents hmem

/-- A paragraph's end tag in an `svg` element puts a paragraph there. -/
theorem html_in_foreign :
    ¬∀ fragment parent e contents, .element parent e contents ∈
      (Serializer.plain fun _ => pure ()).calls divElement (parse divElement fragment) () →
        HtmlWithin parent e := by
  intro hwithin
  let svg : Element := { name := "svg".toList, ns := .svg }
  let p : Element := { name := "p".toList }
  have hmem : Call.element svg p [] ∈ (Serializer.plain fun _ => pure ()).calls divElement
      (parse divElement "<svg></p>".toList) () := by
    decide +kernel
  have hholds : svg.holdsHtml = true := hwithin _ svg p [] hmem rfl
  exact absurd hholds (by decide +kernel)

end Stencil.Html
