import Stencil.Html.Trace
import Stencil.Proofs.Html.Forest
import Stencil.Proofs.Html.Trail
import Stencil.Proofs.Html.Turns

/-!
# Construction

Building and writing in one pass. `Serializer.construct` writes what each token does before the next
token is taken, and at the end closes what is still open. Nothing of this order is left in the
result: what is written is the fold over a forest that only depends on the tokens and the context
element (`construct_eq_fold`).

* `Serializer.feed_eq` : taking tokens one by one writes the events of all of them.
* `Builder.build_muted` : in any two HTML contexts, tokens build the same but for notices.
* `Builder.made_build` : every token makes at most one part of the forest, in order.
-/

namespace Stencil.Html

/-! ## Token by token -/

namespace Serializer

variable {m : Type → Type} [Monad m]

/-- Writes what each token does, one after another, and closes what is open at the end. -/
def feed (z : Serializer m) (b : Builder) (c : Canvas) : List Token → m Canvas
  | [] => z.steps c b.finish
  | t :: ts => do
    let c' ← z.steps c (b.push t).2
    z.feed (b.push t).1 c' ts

/-- Writes what is built of tokens as the contents of the context element. -/
def construct (z : Serializer m) (context : Element) (ts : List Token) : m Text := do
  let opening ← z.start context
  let c ← z.feed { context } { top := ⟨context, []⟩ } ts
  return opening ++ c.top.contents

variable [LawfulMonad m]

theorem feed_eq (z : Serializer m) (b : Builder) (c : Canvas) (ts : List Token) :
    z.feed b c ts = z.steps c (b.build ts) := by
  induction ts generalizing b c with
  | nil => rfl
  | cons t ts ih =>
    rw [Builder.build, steps, List.foldlM_append]
    exact bind_congr fun d => ih (b.push t).1 d

theorem construct_eq_run (z : Serializer m) (context : Element) (ts : List Token) :
    z.construct context ts = z.run context (Builder.build { context } ts) :=
  bind_congr fun _ => by rw [feed_eq]

end Serializer

/-- The forest that is built of tokens. -/
def Forest.ofTokens (context : Element) (ts : List Token) : Forest :=
  ofEvents (Builder.build { context } ts)

/-! ## The context element -/

/-- Whether something happens inside the open elements, and is not just said of them. -/
def Event.happens : Event → Bool
  | .notice _ => false
  | _ => true

/-- Notices tell nothing of the forest. -/
theorem Forest.remaining_happens (es : List Event) :
    remaining (es.filter Event.happens) = remaining es := by
  induction es with
  | nil => rfl
  | cons event es ih =>
    cases event with
    | notice n => exact ih
    | text | comment | leaf | enter | leave =>
      rw [List.filter_cons_of_pos rfl, remaining, remaining, ih]

namespace Step

/-- The step with its notices dropped. -/
def muted (s : Step) : Step := { s with events := s.events.filter Event.happens }

variable (s : Step)

theorem muted_notify (ns : List Notice) : (s.notify ns).muted = s.muted := by
  have hnotices : (ns.map Event.notice).filter Event.happens = [] := by
    induction ns with
    | nil => rfl
    | cons n ns ih => exact ih
  rw [muted, notify, List.filter_append, hnotices, List.append_nil]
  rfl

theorem muted_close (n : Nat) : (s.close n).muted = s.muted.close n := by
  have hleaves : (((s.stack.take n).map fun _ => Event.leave).filter Event.happens) =
      (s.stack.take n).map fun _ => Event.leave := by
    rw [List.filter_eq_self]
    intro event hevent
    obtain ⟨_, -, rfl⟩ := List.mem_map.1 hevent
    rfl
  rw [muted, close, List.filter_append, hleaves]
  rfl

theorem muted_closeKin (k : Kin) : (s.closeKin k).muted = s.muted.closeKin k := by
  have hstack : s.muted.stack = s.stack := rfl
  cases hdepth : k.depth? s.stack with
  | none => rw [closeKin, closeKin, hstack, hdepth]
  | some n =>
    rw [closeKin, closeKin, hstack, hdepth]
    exact muted_close s n

theorem muted_emit {event : Event} (h : event.happens = true) :
    (s.emit event).muted = s.muted.emit event := by
  rw [muted, emit, List.filter_append, List.filter_cons_of_pos h]
  rfl

theorem muted_enter (e : Element) : (s.enter e).muted = s.muted.enter e := by
  rw [muted, enter, List.filter_append, List.filter_cons_of_pos rfl]
  rfl

theorem muted_insertHtml (name : Text) (as : Attributes) (slash : Bool) :
    (s.insertHtml name as slash).muted = s.muted.insertHtml name as slash := by
  unfold insertHtml
  dsimp only
  split
  · exact muted_emit s rfl
  · exact congrArg (fun s' : Step => { s' with skipNewline := dropsLeadingNewline name })
      (muted_enter s { name, attributes := as, selfClosing := slash })

end Step

namespace Builder

theorem muted_endSibling (context context' : Element) (name : Text) (s : Step) :
    (endSibling context' name s).muted = (endSibling context name s).muted := by
  obtain ⟨ns, hsibling, -⟩ := endSibling_eq context name s
  obtain ⟨ns', hsibling', -⟩ := endSibling_eq context' name s
  rw [hsibling, hsibling', Step.muted_closeKin, Step.muted_closeKin, Step.muted_notify,
    Step.muted_notify]

theorem muted_htmlStartTag (context context' : Element) (name : Text) (as : Attributes)
    (slash : Bool) (s : Step) : (htmlStartTag context' name as slash s).muted =
      (htmlStartTag context name as slash s).muted := by
  unfold htmlStartTag
  split
  · rfl
  · split
    · rfl
    · split
      · rfl
      · rw [Step.muted_insertHtml, Step.muted_insertHtml, muted_endSibling context context']

variable {b : Builder} {context' : Element}

theorem muted_startTag (hcontext : b.context.isHtml = true) (hcontext' : context'.isHtml = true)
    (name : Text) (as : Attributes) (slash : Bool) :
    ({ b with context := context' }.startTag name as slash).muted =
      (b.startTag name as slash).muted := by
  have hhtml {c : Element} (hc : c.isHtml = true) : c.holdsHtml = true := by
    rw [Element.holdsHtml, hc, Bool.true_or]
  obtain ⟨context, stack, skip⟩ := b
  cases stack with
  | nil =>
    have hholds : (current { context, skipNewline := skip }).holdsHtml = true := hhtml hcontext
    have hholds' : (current { context := context', skipNewline := skip }).holdsHtml = true :=
      hhtml hcontext'
    simp only [startTag, hholds, hholds', if_true]
    exact muted_htmlStartTag context context' name as slash _
  | cons e S =>
    -- The innermost open element is not the context element, so the tag is taken the same way.
    have hcurrent (c : Element) :
        current { context := c, stack := e :: S, skipNewline := skip } = e := rfl
    simp only [startTag, hcurrent]
    split
    · exact muted_htmlStartTag context context' name as slash _
    · split
      · exact muted_htmlStartTag context context' name as slash _
      · rfl

/-- In any two HTML contexts a token does the same, but for notices. -/
theorem muted_step (hcontext : b.context.isHtml = true) (hcontext' : context'.isHtml = true)
    (t : Token) : ({ b with context := context' }.step t).muted = (b.step t).muted := by
  cases t with
  | doctype | endTag | comment | text => rfl
  | startTag name as slash => exact muted_startTag hcontext hcontext' name _ slash

/-- **In any two HTML contexts tokens build the same, but for notices.** -/
theorem build_muted (hcontext : b.context.isHtml = true) (hcontext' : context'.isHtml = true)
    (ts : List Token) :
    ({ b with context := context' }.build ts).filter Event.happens =
      (b.build ts).filter Event.happens := by
  induction ts generalizing b with
  | nil => rfl
  | cons t ts ih =>
    have hstep := muted_step hcontext hcontext' t
    have hpush : ({ b with context := context' }.push t).1 =
        { (b.push t).1 with context := context' } := by
      have hstack := congrArg Step.stack hstep
      have hskip := congrArg Step.skipNewline hstep
      exact congr (congrArg (Builder.mk context') hstack) hskip
    rw [build, build, List.filter_append, List.filter_append, hpush,
      ih (b := (b.push t).1) hcontext]
    exact congrArg (· ++ _) (congrArg Step.events hstep)

end Builder

theorem Forest.ofTokens_html {context context' : Element} (hcontext : context.isHtml = true)
    (hcontext' : context'.isHtml = true) (ts : List Token) :
    ofTokens context' ts = ofTokens context ts := by
  have hbuild := Builder.build_muted (b := { context }) hcontext hcontext' ts
  rw [ofTokens, ofTokens, ofEvents, ofEvents, ← remaining_happens, hbuild, remaining_happens]

/-! ## The parts of a forest -/

/-- A part of a forest by itself. -/
inductive Part where
  | text (content : Text)
  | comment (content : Text)
  | element (e : Element)
  deriving DecidableEq, Repr

/-- The parts of a forest, every element before its children. -/
def Forest.parts : Forest → List Part
  | .nil => []
  | .text t rest => .text t :: parts rest
  | .comment t rest => .comment t :: parts rest
  | .element e children rest => .element e :: (parts children ++ parts rest)

/-- The part that starts with an event. -/
def Event.part? : Event → Option Part
  | .text t => some (.text t)
  | .comment t => some (.comment t)
  | .leaf e => some (.element e)
  | .enter e => some (.element e)
  | .leave => none
  | .notice _ => none

/-- What events tell has their parts. -/
theorem Forest.parts_remaining (es : List Event) :
    (remaining es).1.parts ++ (remaining es).2.flatMap parts = es.filterMap Event.part? := by
  induction es with
  | nil => rfl
  | cons event es ih =>
    cases event with
    | text t => exact congrArg (Part.text t :: ·) ih
    | comment t => exact congrArg (Part.comment t :: ·) ih
    | leaf e => exact congrArg (Part.element e :: ·) ih
    | enter e =>
      change _ = Part.element e :: es.filterMap Event.part?
      rw [← ih, remaining]
      obtain ⟨f, outer⟩ := remaining es
      cases outer with
      | nil =>
        dsimp only [parts]
        rw [List.flatMap_nil, List.append_nil, List.append_nil]
      | cons g outer =>
        dsimp only [parts]
        rw [List.flatMap_cons, List.cons_append, List.append_assoc]
    | leave => exact ih
    | notice n => exact ih

/-- What a token can make: a text is left out if it is empty, and can lose a line feed at its start;
a tag makes at most one element. -/
inductive Yields : Token → List Part → Prop where
  | doctype (c : Text) : Yields (.doctype c) []
  | blank {c : Text} (hc : c = [] ∨ c = ['\n']) : Yields (.text c) []
  | text {c : Text} (hc : c ≠ []) : Yields (.text c) [.text c]
  | dropped {c : Text} (hc : c ≠ []) : Yields (.text ('\n' :: c)) [.text c]
  | comment (c : Text) : Yields (.comment c) [.comment c]
  | startTag (name : Text) (as : List WrittenAttribute) (slash : Bool) :
      Yields (.startTag name as slash) []
  | endTag (name : Text) : Yields (.endTag name) []
  | element {t : Token} {e : Element} (he : Builder.Makes t e) : Yields t [.element e]

/-- Whether parts are made by tokens, each token's after those of the tokens before it. -/
inductive Made : List Token → List Part → Prop where
  | nil : Made [] []
  | cons {t : Token} {ts : List Token} {ps qs : List Part} (ht : Yields t ps) (hts : Made ts qs) :
      Made (t :: ts) (ps ++ qs)

/-- To end elements and to give notices makes no part. -/
theorem Step.Clears.parts {S : List Element} {s : Step} (h : Clears S s) :
    s.events.filterMap Event.part? = [] := by
  induction h with
  | start => rfl
  | notify _ ns ih =>
    rw [Step.notify, List.filterMap_append, ih, List.filterMap_map]
    exact List.filterMap_eq_nil_iff.2 fun _ _ => rfl
  | close _ n ih =>
    rw [Step.close, List.filterMap_append, ih, List.filterMap_map]
    exact List.filterMap_eq_nil_iff.2 fun _ _ => rfl

namespace Builder

theorem yields_text (skip : Bool) (c : Text) : Yields (.text c)
    ((Event.ofText (if skip then dropNewline c else c)).filterMap Event.part?) := by
  have hwhole : Yields (.text c) ((Event.ofText c).filterMap Event.part?) := by
    unfold Event.ofText
    split
    · next hc => exact .blank (.inl hc)
    · next hc => exact .text hc
  split
  · unfold dropNewline
    split
    · next d =>
      unfold Event.ofText
      split
      · next hd => exact .blank (.inr (by rw [hd]))
      · next hd => exact .dropped hd
    · exact hwhole
  · exact hwhole

theorem yields_step (b : Builder) (t : Token) :
    Yields t ((b.step t).events.filterMap Event.part?) := by
  have houtcome := outcome_step b t
  generalize b.step t = s at houtcome
  cases houtcome with
  | none h htext hcomment =>
    rw [h.parts]
    cases t with
    | doctype c => exact .doctype c
    | startTag name as slash => exact .startTag name as slash
    | endTag name => exact .endTag name
    | comment c => exact absurd rfl (hcomment c)
    | text c => exact absurd rfl (htext c)
  | text c => exact yields_text b.skipNewline c
  | comment c => exact .comment c
  | leaf h he =>
    rw [Step.emit, List.filterMap_append, h.parts]
    exact .element he
  | enter h he =>
    rw [Step.enter, List.filterMap_append, h.parts]
    exact .element he

/-- **Every token makes at most one part, in order.** -/
theorem made_build (b : Builder) (ts : List Token) :
    Made ts ((b.build ts).filterMap Event.part?) := by
  induction ts generalizing b with
  | nil =>
    have hleaves : b.finish.filterMap Event.part? = [] := by
      rw [finish, List.filterMap_map]
      exact List.filterMap_eq_nil_iff.2 fun _ _ => rfl
    rw [build, hleaves]
    exact .nil
  | cons t ts ih =>
    rw [build, List.filterMap_append]
    exact .cons (yields_step b t) (ih (b.push t).1)

end Builder

/-! ## Construction is a fold -/

theorem Builder.close_build (context : Element) (ts : List Token) :
    Event.close 0 (Builder.build { context } ts) = true :=
  Event.close_of_trail? (trail_build { context } ts)

theorem Forest.made_ofTokens (context : Element) (ts : List Token) :
    Made ts (ofTokens context ts).parts := by
  have hparts := parts_remaining (Builder.build { context } ts)
  have hlen := length_remaining (Builder.close_build context ts)
  rw [List.length_eq_zero_iff.1 hlen, List.flatMap_nil, List.append_nil] at hparts
  rw [ofTokens, ofEvents, hparts]
  exact Builder.made_build { context } ts

/-- **Construction is a fold over a forest of the tokens.** Whatever a serializer does in its monad,
what it writes for each part while tokens are taken is what it writes in a fold over the forest of
the tokens, every element after its children. The forest is the same in all HTML contexts, and every
token makes at most one part of it. -/
theorem construct_eq_fold {m : Type → Type} [Monad m] [LawfulMonad m] (z : Serializer m)
    (context : Element) (ts : List Token) :
    z.quiet.construct context ts = (do
        let opening ← z.start context
        let t ← z.quiet.fold context (.ofTokens context ts)
        return opening ++ t) ∧
      (∀ context' : Element, context.isHtml = true → context'.isHtml = true →
        Forest.ofTokens context' ts = Forest.ofTokens context ts) ∧
        Made ts (Forest.ofTokens context ts).parts := by
  refine ⟨?_, fun context' hcontext hcontext' => ?_, ?_⟩
  · rw [z.quiet.construct_eq_run]
    exact z.run_eq_fold context (Builder.close_build context ts)
  · exact Forest.ofTokens_html hcontext hcontext' ts
  · exact Forest.made_ofTokens context ts

/-- Tokens with end tags left out, a foreign element that is broken out of, and a stray end tag. -/
def strayTokens : List Token :=
  [.startTag "li".toList [] false, .text "a".toList,
    .startTag "svg".toList [("x".toList, none)] false, .startTag "h2".toList [] false,
    .startTag "pre".toList [] false, .text "\nb".toList,
    .endTag "p".toList, .comment "c".toList, .endTag "b".toList]

theorem construct_eq_fold_strayTokens :
    LawfulMonad (StateT (List Call) Id) ∧ divElement.isHtml = true ∧
      Element.isHtml { name := "h1".toList } = true ∧
      (Serializer.plain (m := Id) fun _ => pure ()).traced.quiet.construct divElement
        strayTokens = (do
        let opening ← (Serializer.plain (m := Id) fun _ => pure ()).traced.start divElement
        let t ← (Serializer.plain (m := Id) fun _ => pure ()).traced.quiet.fold divElement
          (.ofTokens divElement strayTokens)
        return opening ++ t) ∧
      Forest.ofTokens { name := "h1".toList } strayTokens =
        Forest.ofTokens divElement strayTokens := by
  have hfold := construct_eq_fold (Serializer.plain (m := Id) fun _ => pure ()).traced divElement
    strayTokens
  exact ⟨inferInstance, rfl, rfl, hfold.1, hfold.2.1 _ rfl rfl⟩

end Stencil.Html
