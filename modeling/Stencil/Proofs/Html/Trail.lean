import Stencil.Proofs.Html.Steps

/-!
# Trails

Events lead from open elements to open elements, and never close one that is not open.
`Builder.outcome_step` says what a step of the builder can be, whatever the token and the state:
after some notices and the ends of some elements, one part of the fragment, or none. So what is
built of any tokens, in any context, closes all that it opens (`trail_build`).
-/

namespace Stencil.Html

/-- The elements that are open after events, from those that were open before them; nothing if more
are closed than are open. -/
def Event.trail? : List Element → List Event → Option (List Element)
  | S, [] => some S
  | S, .enter e :: es => trail? (e :: S) es
  | [], .leave :: _ => none
  | _ :: S, .leave :: es => trail? S es
  | S, _ :: es => trail? S es

namespace Event

variable (S : List Element) (es : List Event)

@[simp] theorem trail?_nil : trail? S [] = some S := by cases S <;> rfl

@[simp] theorem trail?_enter (e : Element) : trail? S (.enter e :: es) = trail? (e :: S) es := by
  cases S <;> rfl

@[simp] theorem trail?_leave (e : Element) : trail? (e :: S) (.leave :: es) = trail? S es := rfl

@[simp] theorem trail?_text (t : Text) : trail? S (.text t :: es) = trail? S es := by
  cases S <;> rfl

@[simp] theorem trail?_comment (t : Text) : trail? S (.comment t :: es) = trail? S es := by
  cases S <;> rfl

@[simp] theorem trail?_leaf (e : Element) : trail? S (.leaf e :: es) = trail? S es := by
  cases S <;> rfl

@[simp] theorem trail?_notice (n : Notice) : trail? S (.notice n :: es) = trail? S es := by
  cases S <;> rfl

theorem trail?_append (es' : List Event) :
    trail? S (es ++ es') = (trail? S es).bind fun S' => trail? S' es' := by
  induction es generalizing S with
  | nil => simp
  | cons event es ih =>
    cases event with
    | leave =>
      cases S with
      | nil => rfl
      | cons e S => simpa using ih S
    | text | comment | leaf | enter | notice => simpa using ih _

theorem trail?_leaves (n : Nat) : trail? S ((S.take n).map fun _ => .leave) = some (S.drop n) := by
  induction S generalizing n with
  | nil => simp
  | cons e S ih =>
    cases n with
    | zero => simp
    | succ n => simpa using ih n

/-- Events after which nothing is open close what they open and what was open before them. -/
theorem close_of_trail? {S : List Element} {es : List Event} (h : trail? S es = some []) :
    Event.close S.length es = true := by
  induction es generalizing S with
  | nil =>
    obtain rfl : S = [] := by simpa using h
    rfl
  | cons event es ih =>
    cases event with
    | leave =>
      cases S with
      | nil => cases h
      | cons e S => exact ih h
    | enter e => simpa [Event.close] using ih (S := e :: S) (by simpa using h)
    | text t => rw [close_text]; exact ih (by simpa using h)
    | comment t => rw [close_comment]; exact ih (by simpa using h)
    | leaf e => rw [close_leaf]; exact ih (by simpa using h)
    | notice n => rw [close_notice]; exact ih (by simpa using h)

end Event

namespace Step

variable {S : List Element} {s : Step}

/-- Whether a step so far has only closed elements, of those open at first, and given notices. -/
inductive Clears (S : List Element) : Step → Prop where
  | start : Clears S { stack := S }
  | notify {s : Step} (h : Clears S s) (ns : List Notice) : Clears S (s.notify ns)
  | close {s : Step} (h : Clears S s) (n : Nat) : Clears S (s.close n)

theorem Clears.closeKin (h : Clears S s) (k : Kin) : Clears S (s.closeKin k) := by
  unfold Step.closeKin
  split
  · exact h.close _
  · exact h

theorem Clears.trail (h : Clears S s) : Event.trail? S s.events = some s.stack := by
  induction h with
  | start => exact Event.trail?_nil S
  | @notify s _ ns ih =>
    have hnotices : Event.trail? s.stack (ns.map .notice) = some s.stack := by
      induction ns with
      | nil => exact Event.trail?_nil s.stack
      | cons n ns ih => simpa using ih
    rw [Step.notify, Event.trail?_append, ih]
    exact hnotices
  | close _ n ih =>
    rw [Step.close, Event.trail?_append, ih]
    exact Event.trail?_leaves _ n

end Step

namespace Builder

open Step

/-- The elements that a token can make: that of a start tag, as it is spelled in some vocabulary, or
the paragraph or line break that an end tag stands for. -/
inductive Makes : Token → Element → Prop where
  | startTag (name : Text) (as : List WrittenAttribute) (slash : Bool) (ns : Namespace) :
      Makes (.startTag name as slash) (foreign name ns (values as) slash)
  | endTag {name : Text} (hname : name = paragraphName ∨ name = "br".toList) :
      Makes (.endTag name) { name }

/-- What a step can be. -/
inductive Outcome (b : Builder) : Token → Step → Prop where
  | none {t : Token} {s : Step} (h : Clears b.stack s) (htext : ∀ c, t ≠ .text c)
      (hcomment : ∀ c, t ≠ .comment c) : Outcome b t s
  | text (c : Text) : Outcome b (.text c)
      { stack := b.stack, events := Event.ofText (if b.skipNewline then dropNewline c else c) }
  | comment (c : Text) : Outcome b (.comment c) { stack := b.stack, events := [.comment c] }
  | leaf {t : Token} {s : Step} {e : Element} (h : Clears b.stack s) (he : Makes t e) :
      Outcome b t (s.emit (.leaf e))
  | enter {t : Token} {s : Step} {e : Element} (h : Clears b.stack s) (he : Makes t e)
      (skip : Bool) : Outcome b t { s.enter e with skipNewline := skip }

variable {b : Builder} {s : Step}

theorem outcome_insertForeign (h : Clears b.stack s) (name : Text) (ns : Namespace)
    (as : List WrittenAttribute) (slash : Bool) :
    Outcome b (.startTag name as slash) (s.insertForeign name ns (values as) slash) := by
  have hmakes := Makes.startTag name as slash ns
  rw [insertForeign_eq]
  split
  · exact .leaf h hmakes
  · exact .enter h hmakes (s.enter (foreign name ns (values as) slash)).skipNewline

theorem outcome_insertHtml (h : Clears b.stack s) (name : Text) (as : List WrittenAttribute)
    (slash : Bool) : Outcome b (.startTag name as slash) (s.insertHtml name (values as) slash) := by
  have hmakes := Makes.startTag name as slash .html
  unfold Step.insertHtml
  split
  · exact .leaf h hmakes
  · exact .enter h hmakes _

theorem outcome_htmlStartTag (h : Clears b.stack s) (context : Element) (name : Text)
    (as : List WrittenAttribute) (slash : Bool) :
    Outcome b (.startTag name as slash) (htmlStartTag context name (values as) slash s) := by
  unfold htmlStartTag
  split
  · exact .none (h.notify [_]) (fun _ => Token.noConfusion) (fun _ => Token.noConfusion)
  · split
    · exact outcome_insertForeign h _ _ _ _
    · split
      · exact outcome_insertForeign h _ _ _ _
      · obtain ⟨ns, hsibling, -⟩ := endSibling_eq context name (endParagraph name s)
        rw [hsibling, endParagraph_eq]
        exact outcome_insertHtml (((h.closeKin _).notify ns).closeKin _) _ _ _

theorem outcome_startTag (b : Builder) (name : Text) (as : List WrittenAttribute) (slash : Bool) :
    Outcome b (.startTag name as slash) (b.startTag name (values as) slash) := by
  unfold startTag
  split
  · exact outcome_htmlStartTag .start _ _ _ _
  · split
    · exact outcome_htmlStartTag ((Clears.start.notify [_]).close _) _ _ _ _
    · exact outcome_insertForeign .start _ _ _ _

/-- An end tag closes elements, or stands for a paragraph or a line break. -/
theorem endTag_cases (b : Builder) (name : Text) :
    (∃ ns n, b.endTag name = (({ stack := b.stack } : Step).notify ns).close n) ∨
      (name = paragraphName ∨ name = "br".toList) ∧ ∃ notice : Notice,
        b.endTag name = { stack := b.stack, events := [.notice notice, .leaf { name }] } := by
  have hclose (n : Nat) : ({ stack := b.stack } : Step).close n =
      (({ stack := b.stack } : Step).notify []).close n := by rw [notify_nil]
  have hstay (ns : List Notice) : (({ stack := b.stack } : Step).notify ns).close 0 =
      ({ stack := b.stack } : Step).notify ns := by
    rw [Step.close, List.take_zero, List.map_nil, List.append_nil, List.drop_zero]
  unfold endTag
  split
  · exact .inl ⟨[], _, hclose _⟩
  · unfold htmlEndTag
    split
    · exact .inl ⟨[], 0, (notify_nil _).symm.trans (hstay []).symm⟩
    · split
      · next hname =>
        dsimp only
        split
        · exact .inl ⟨[], _, hclose _⟩
        · exact .inr ⟨.inl hname, _, rfl⟩
      · split
        · next hname => exact .inr ⟨.inr hname, _, rfl⟩
        · dsimp only
          split
          · exact .inl ⟨[], _, hclose _⟩
          · exact .inl ⟨[_], 0, (hstay [_]).symm⟩

/-- **What a step of the builder can be**, whatever the token and the state. -/
theorem outcome_step (b : Builder) (t : Token) : Outcome b t (b.step t) := by
  cases t with
  | doctype c =>
    exact .none (Clears.start.notify [_]) (fun _ => Token.noConfusion) (fun _ => Token.noConfusion)
  | startTag name as slash => exact outcome_startTag b name as slash
  | endTag name =>
    change Outcome b _ (b.endTag name)
    rcases endTag_cases b name with ⟨ns, n, hclose⟩ | ⟨hname, notice, hleaf⟩
    · rw [hclose]
      exact .none ((Clears.start.notify ns).close n) (fun _ => Token.noConfusion)
        (fun _ => Token.noConfusion)
    · rw [hleaf]
      exact .leaf (Clears.start.notify [notice]) (.endTag hname)
  | comment c => exact .comment c
  | text c => exact .text c

theorem trail_step (b : Builder) (t : Token) :
    Event.trail? b.stack (b.step t).events = some (b.step t).stack := by
  have houtcome := outcome_step b t
  generalize b.step t = s at houtcome
  cases houtcome with
  | none h => exact h.trail
  | text c =>
    change Event.trail? b.stack (Event.ofText _) = _
    generalize (if b.skipNewline then dropNewline c else c) = d
    unfold Event.ofText
    split
    · exact Event.trail?_nil _
    · exact (Event.trail?_text _ _ d).trans (Event.trail?_nil _)
  | comment c => exact (Event.trail?_comment _ _ c).trans (Event.trail?_nil _)
  | @leaf _ s e h _ =>
    rw [Step.emit, Event.trail?_append, h.trail]
    exact (Event.trail?_leaf _ _ e).trans (Event.trail?_nil _)
  | @enter _ s e h _ _ =>
    rw [Step.enter, Event.trail?_append, h.trail]
    exact (Event.trail?_enter _ _ e).trans (Event.trail?_nil _)

/-- **What is built of tokens closes all that is open.** -/
theorem trail_build (b : Builder) (ts : List Token) :
    Event.trail? b.stack (b.build ts) = some [] := by
  induction ts generalizing b with
  | nil => simpa [build, finish] using Event.trail?_leaves b.stack b.stack.length
  | cons t ts ih =>
    have hstep : Event.trail? b.stack (b.push t).2 = some (b.push t).1.stack := trail_step b t
    rw [build, Event.trail?_append, hstep]
    exact ih (b.push t).1

end Builder

end Stencil.Html
