import Stencil.Proofs.Html.Walk

/-!
# Steps

What one token does to the open elements. `Inserted` lists the ways in which a turn inserts an
element, with all that is known of the place where it does; every other event of a step closes an
element, or is a notice. `walk_step` says so of every token, and `walk_build` of all of them.
-/

namespace Stencil.Html

namespace Step

/-- Closes the element that a start tag finds to close, and those inside it. -/
def closeKin (k : Kin) (s : Step) : Step :=
  match k.depth? s.stack with
  | some n => s.close n
  | none => s

def notify (s : Step) (ns : List Notice) : Step := { s with events := s.events ++ ns.map .notice }

@[simp] theorem notify_nil (s : Step) : s.notify [] = s := by simp [notify]

@[simp] theorem stack_notify (s : Step) (ns : List Notice) : (s.notify ns).stack = s.stack := rfl

theorem stack_closeKin (k : Kin) (s : Step) : (s.closeKin k).stack = k.close s.stack := by
  unfold closeKin Kin.close
  cases k.depth? s.stack <;> rfl

theorem closeKin_of_none {k : Kin} {s : Step} (h : k.depth? s.stack = none) : s.closeKin k = s := by
  rw [closeKin, h]

variable {P : List Element → Element → Prop} {S : List Element} {s : Step}

/-- Whether the events of a step so far lead from open elements to those it leaves open. -/
def From (P : List Element → Element → Prop) (S : List Element) (s : Step) : Prop :=
  Walk P S s.events s.stack

theorem From.notify (h : From P S s) (ns : List Notice) : From P S (s.notify ns) := by
  refine Walk.append h ?_
  induction ns with
  | nil => exact .stay
  | cons n ns ih => exact .notice ih

theorem From.close (h : From P S s) (n : Nat) : From P S (s.close n) :=
  Walk.append h (.leaves s.stack n)

theorem From.closeKin (h : From P S s) (k : Kin) : From P S (s.closeKin k) := by
  unfold Step.closeKin
  split
  · exact h.close _
  · exact h

end Step

namespace Builder

open Step

theorem named_eq_amongst (name : Text) : named name = amongst [name] := by
  funext e
  simp [named, amongst]

theorem endParagraph_eq (name : Text) (s : Step) :
    endParagraph name s = s.closeKin (paragraphKin name) := by
  unfold endParagraph paragraphKin
  split
  · rw [closeInScope, named_eq_amongst]
    rfl
  · rfl

theorem depth?_innermost (names : List Text) (e : Element) (outer : List Element) :
    (Kin.innermost names).depth? (e :: outer) =
      if e.isHtml && amongst names e then some 1 else none := rfl

theorem close_innermost (context : Element) (names : List Text) (s : Step) (ns : List Notice) :
    ∃ ms, (if (s.current context).isHtml && amongst names (s.current context) then
        (s.notify ns).close 1 else s) = (s.notify ms).closeKin (.innermost names) ∧
      (context.name ∉ names → (Kin.innermost names).depth? s.stack = none → ms = []) := by
  cases hS : s.stack with
  | nil =>
    have hcurrent : s.current context = context := by rw [Step.current, hS]; rfl
    have hclose (ms : List Notice) : (s.notify ms).closeKin (.innermost names) = s.notify ms :=
      closeKin_of_none (by rw [stack_notify, hS]; rfl)
    rw [hcurrent]
    split
    · next hnames =>
      refine ⟨ns, ?_, fun hcontext _ => ?_⟩
      · rw [hclose]
        simp [Step.close, Step.notify, hS]
      · rw [Bool.and_eq_true] at hnames
        exact absurd (of_decide_eq_true hnames.2) hcontext
    · exact ⟨[], by rw [hclose, notify_nil], fun _ _ => rfl⟩
  | cons e outer =>
    have hcurrent : s.current context = e := by rw [Step.current, hS]; rfl
    rw [hcurrent, depth?_innermost]
    split
    · next he =>
      refine ⟨ns, ?_, fun _ h => nomatch h⟩
      rw [closeKin, stack_notify, hS, depth?_innermost, if_pos he]
    · next he =>
      refine ⟨[], ?_, fun _ _ => rfl⟩
      rw [notify_nil, closeKin, hS, depth?_innermost, if_neg he]

/-- The implied end tag of an element of the same kind, with its notices. -/
theorem endSibling_eq (context : Element) (name : Text) (s : Step) :
    ∃ ns, endSibling context name s = (s.notify ns).closeKin (siblingKin name) ∧
      (context.name ∉ kinNames → (siblingKin name).depth? s.stack = none → ns = []) := by
  have hquiet {k : Kin} {s' : Step} (h : s' = s.closeKin k) : ∃ ns, s' = (s.notify ns).closeKin k ∧
      (context.name ∉ kinNames → k.depth? s.stack = none → ns = []) :=
    ⟨[], by rw [notify_nil, h], fun _ _ => rfl⟩
  unfold endSibling siblingKin
  split
  · obtain ⟨ms, hclose, hnone⟩ := close_innermost context headingNames s
      [⟨.debug, "html.tree_builder", "nested heading <".toList ++ name ++ ['>']⟩]
    exact ⟨ms, hclose, fun hcontext => hnone fun h => hcontext (List.mem_append_left _ h)⟩
  · split
    · exact hquiet (by rw [closeInScope, named_eq_amongst]; rfl)
    · split
      · exact hquiet rfl
      · split
        · have hnamed (e : Element) :
              e.isHtmlNamed "option".toList = (e.isHtml && amongst ["option".toList] e) := by
            simp only [Element.isHtmlNamed, amongst, List.mem_singleton]
          obtain ⟨ms, hclose, hnone⟩ := close_innermost context ["option".toList] s []
          rw [notify_nil] at hclose
          rw [hnamed]
          refine ⟨ms, hclose, fun hcontext => hnone fun h => hcontext ?_⟩
          rw [List.mem_singleton.1 h]
          decide
        · split
          · exact hquiet (by rw [closeInScope, named_eq_amongst]; rfl)
          · split
            · exact hquiet rfl
            · split
              · rw [named_eq_amongst]
                cases hk : Scope.general.depth? (amongst [name]) s.stack with
                | none => exact hquiet (by rw [closeKin, Kin.depth?, hk])
                | some n =>
                  have hkin : (Kin.nearest .general [name]).depth? s.stack = some n := hk
                  have hclose : (s.emit .anchorNested).close n =
                      (s.emit .anchorNested).closeKin (.nearest .general [name]) := by
                    rw [closeKin, show (s.emit .anchorNested).stack = s.stack from rfl, hkin]
                  refine ⟨[_], hclose, fun _ h => ?_⟩
                  rw [hkin] at h
                  cases h
              · exact hquiet rfl

theorem stack_endTags (context : Element) (name : Text) (s : Step) :
    (endSibling context name (endParagraph name s)).stack = settle name s.stack := by
  obtain ⟨ns, hsibling, -⟩ := endSibling_eq context name (endParagraph name s)
  rw [hsibling, stack_closeKin, stack_notify, endParagraph_eq, stack_closeKin, settle]

/-! ### Insertions -/

theorem ns_of_not_holdsHtml {e : Element} (h : e.holdsHtml = false) : e.ns ≠ .html := by
  intro hns
  rw [Element.holdsHtml, Element.isHtml, hns] at h
  cases h

/-- The attributes of an element, from those of its start tag. -/
def values (as : List WrittenAttribute) : Attributes := as.map fun (n, v) => (n, v.getD [])

/-- The element of a start tag in foreign content. -/
def foreign (name : Text) (ns : Namespace) (attributes : Attributes) (selfClosing : Bool) :
    Element :=
  if ns = .svg then
    { name := restoreCase svgElementNames name, ns, selfClosing
      attributes := attributes.map fun (n, v) => (restoreCase svgAttributeNames n, v) }
  else { name, ns, attributes, selfClosing }

theorem insertForeign_eq (s : Step) (name : Text) (ns : Namespace) (attributes : Attributes)
    (selfClosing : Bool) : s.insertForeign name ns attributes selfClosing =
      if selfClosing then s.emit (.leaf (foreign name ns attributes selfClosing))
      else s.enter (foreign name ns attributes selfClosing) := rfl

theorem ns_foreign (name : Text) (ns : Namespace) (attributes : Attributes) (selfClosing : Bool) :
    (foreign name ns attributes selfClosing).ns = ns := by
  unfold foreign
  split
  · rfl
  · rfl

/-- The element that a token inserts in a state, with the elements open around it. -/
inductive Inserted (b : Builder) : Token → List Element → Element → Prop where
  /-- A start tag of HTML, where nothing is left for it to close. -/
  | html {name : Text} {as : List WrittenAttribute} {slash : Bool} {S : List Element}
      (hholds : (S.headD b.context).holdsHtml = true) (hname : name ∉ documentNames)
      (hsvg : name ≠ "svg".toList) (hmath : name ≠ "math".toList) (hsettled : Settled S name)
      (hcurrent : (isRawText name || isEscapable name) = true → b.current.holdsHtml = true) :
      Inserted b (.startTag name as slash) S
        { name, attributes := values as, selfClosing := slash }
  /-- The start tag that foreign content starts with. -/
  | root {name : Text} {ns : Namespace} {as : List WrittenAttribute} {slash : Bool}
      {S : List Element} (hholds : (S.headD b.context).holdsHtml = true)
      (hroot : name = "svg".toList ∧ ns = .svg ∨ name = "math".toList ∧ ns = .math) :
      Inserted b (.startTag name as slash) S (foreign name ns (values as) slash)
  /-- A start tag in foreign content. -/
  | nested {name : Text} {as : List WrittenAttribute} {slash : Bool}
      (hforeign : b.current.holdsHtml = false) (hstays : breaksOut name (values as) = false) :
      Inserted b (.startTag name as slash) b.stack (foreign name b.current.ns (values as) slash)
  /-- The paragraph or line break that an end tag stands for. -/
  | recovered {name : Text} (hname : name = paragraphName ∨ name = "br".toList)
      (hforeign : foreignDepth? name b.stack = none)
      (hscope : name = paragraphName → Scope.button.depth? (named name) b.stack = none) :
      Inserted b (.endTag name) b.stack { name }

/-- How a step ends: elements are closed, and then one is inserted, or none. -/
inductive Ends (P : List Element → Element → Prop) (b : Builder) (t : Token) (s : Step) : Prop where
  | none (hfrom : From P b.stack s) (hbody : t.opensBody? = Option.none)
  | leaf {s' : Step} {e : Element} (hfrom : From P b.stack s') (he : Inserted b t s'.stack e)
      (hbody : t.opensBody? = Option.none) (hstack : s.stack = s'.stack)
      (hevents : s.events = s'.events ++ [.leaf e])
  | enter {s' : Step} {e : Element} (hfrom : From P b.stack s') (he : Inserted b t s'.stack e)
      (hsits : Sits b.context s'.stack e) (hvoid : e.isVoid = false)
      (hstack : s.stack = e :: s'.stack) (hevents : s.events = s'.events ++ [.enter e])

variable {P : List Element → Element → Prop} {b : Builder}

theorem opensBody?_of_not {name : Text} (h : (isRawText name || isEscapable name) = false)
    (as : List WrittenAttribute) (slash : Bool) :
    (Token.startTag name as slash).opensBody? = none := by
  cases slash with
  | false => rw [Token.opensBody?, if_neg (by simp [h])]
  | true => rfl

/-- None of the names with other rules of their own is that of an element with a body. -/
theorem not_body_of_mem {name : Text} (h : name ∈ voidNames ∨ name ∈ documentNames ∨
    name ∈ breakoutNames) : (isRawText name || isEscapable name) = false := by
  have hnames : ∀ n ∈ voidNames ++ (documentNames ++ breakoutNames),
      (isRawText n || isEscapable n) = false := by decide
  refine hnames name ?_
  rcases h with h | h | h
  · exact List.mem_append_left _ h
  · exact List.mem_append_right _ (List.mem_append_left _ h)
  · exact List.mem_append_right _ (List.mem_append_right _ h)

theorem Ends.insertForeign {s : Step} {name : Text} {ns : Namespace} {as : List WrittenAttribute}
    {slash : Bool} (hfrom : From P b.stack s) (hns : ns ≠ .html)
    (he : Inserted b (.startTag name as slash) s.stack (foreign name ns (values as) slash)) :
    Ends P b (.startTag name as slash) (s.insertForeign name ns (values as) slash) := by
  rw [insertForeign_eq]
  cases slash with
  | true => exact .leaf hfrom he rfl rfl rfl
  | false =>
    have hhtml : (foreign name ns (values as) false).isHtml = false := by
      rw [Element.isHtml, ns_foreign, decide_eq_false hns]
    refine .enter hfrom he (fun h => ?_) ?_ rfl rfl
    · rw [hhtml] at h
      cases h
    · rw [Element.isVoid, hhtml, Bool.false_and]

theorem Ends.insertHtml {s : Step} {name : Text}
    {as : List WrittenAttribute} {slash : Bool} (hfrom : From P b.stack s)
    (hord : Ordered b.context s.stack) (hholds : (s.stack.headD b.context).holdsHtml = true)
    (hname : name ∉ documentNames) (hsvg : name ≠ "svg".toList) (hmath : name ≠ "math".toList)
    (hcurrent : (isRawText name || isEscapable name) = true → b.current.holdsHtml = true) :
    Ends P b (.startTag name as slash)
      ((endSibling b.context name (endParagraph name s)).insertHtml name (values as) slash) := by
  obtain ⟨ns, hsibling, -⟩ := endSibling_eq b.context name (endParagraph name s)
  have hfrom' : From P b.stack (endSibling b.context name (endParagraph name s)) := by
    rw [hsibling, endParagraph_eq]
    exact ((hfrom.closeKin _).notify ns).closeKin _
  obtain ⟨hsettled, -, hholds'⟩ := settled_after name hord hholds
  rw [← stack_endTags b.context name s] at hsettled hholds'
  have he : Inserted b (.startTag name as slash)
      (endSibling b.context name (endParagraph name s)).stack
      { name, attributes := values as, selfClosing := slash } :=
    .html hholds' hname hsvg hmath hsettled hcurrent
  unfold Step.insertHtml
  split
  · next hleaf =>
    refine .leaf hfrom' he ?_ rfl rfl
    rcases Bool.or_eq_true _ _ ▸ hleaf with hvoid | hcolon
    · exact opensBody?_of_not (not_body_of_mem (.inl (of_decide_eq_true hvoid))) as slash
    · rw [Bool.and_eq_true] at hcolon
      rw [hcolon.1]
      rfl
  · next hleaf =>
    refine .enter hfrom' he (fun _ => ⟨hholds', hsettled⟩) ?_ rfl rfl
    rw [Bool.or_eq_true, not_or] at hleaf
    simpa [Element.isVoid] using fun _ => hleaf.1

theorem holdsHtml_leaveForeign {context : Element} (hcontext : context.holdsHtml = true)
    (s : Step) : (s.leaveForeign.stack.headD context).holdsHtml = true := by
  have hdrop : s.leaveForeign.stack = s.stack.dropWhile fun e => !e.holdsHtml := by
    rw [Step.leaveForeign, Step.close]
    induction s.stack with
    | nil => rfl
    | cons e S ih =>
      cases he : e.holdsHtml with
      | true => simp [he]
      | false => simpa [he] using ih
  rw [hdrop]
  cases hS : s.stack.dropWhile fun e => !e.holdsHtml with
  | nil => exact hcontext
  | cons e S =>
    have := List.head?_dropWhile_not (fun e : Element => !e.holdsHtml) s.stack
    simpa [hS] using this

theorem ends_htmlStartTag {s : Step} {name : Text}
    {as : List WrittenAttribute} {slash : Bool} (hfrom : From P b.stack s)
    (hord : Ordered b.context s.stack) (hholds : (s.stack.headD b.context).holdsHtml = true)
    (hcurrent : (isRawText name || isEscapable name) = true → b.current.holdsHtml = true) :
    Ends P b (.startTag name as slash) (htmlStartTag b.context name (values as) slash s) := by
  unfold htmlStartTag
  split
  · next hname =>
    exact .none (hfrom.notify [_])
      (opensBody?_of_not (not_body_of_mem (.inr (.inl hname))) as slash)
  · next hname =>
    split
    · next hsvg => exact .insertForeign hfrom (by decide) (.root hholds (.inl ⟨hsvg, rfl⟩))
    · next hsvg =>
      split
      · next hmath => exact .insertForeign hfrom (by decide) (.root hholds (.inr ⟨hmath, rfl⟩))
      · next hmath =>
        exact .insertHtml hfrom hord hholds hname hsvg hmath hcurrent

theorem ends_startTag (hcontext : b.context.holdsHtml = true) (hord : Ordered b.context b.stack)
    (name : Text) (as : List WrittenAttribute) (slash : Bool) :
    Ends P b (.startTag name as slash) (b.startTag name (values as) slash) := by
  have hfrom : From P b.stack { stack := b.stack } := .stay
  unfold startTag
  split
  · next hholds => exact ends_htmlStartTag hfrom hord hholds fun _ => hholds
  · next hholds =>
    split
    · next hbreaks =>
      refine ends_htmlStartTag ((hfrom.notify [_]).close _) (ordered_drop hord _)
        (holdsHtml_leaveForeign hcontext _) fun hbody => ?_
      -- No start tag that ends foreign content has a body.
      rw [breaksOut, Bool.or_eq_true, Bool.and_eq_true] at hbreaks
      rcases hbreaks with hname | ⟨hfont, -⟩
      · rw [not_body_of_mem (.inr (.inr (of_decide_eq_true hname)))] at hbody
        cases hbody
      · rw [of_decide_eq_true hfont] at hbody
        exact absurd hbody (by decide)
    · next hstays =>
      have hforeign : b.current.holdsHtml = false := by simpa using hholds
      exact .insertForeign hfrom (ns_of_not_holdsHtml hforeign)
        (.nested hforeign (by simpa using hstays))

theorem ends_endTag (b : Builder) (name : Text) : Ends P b (.endTag name) (b.endTag name) := by
  have hfrom : From P b.stack { stack := b.stack } := .stay
  unfold endTag
  split
  · exact .none (hfrom.close _) rfl
  · next hforeign =>
    unfold htmlEndTag
    split
    · exact .none hfrom rfl
    · split
      · next hname =>
        dsimp only
        split
        · exact .none (hfrom.close _) rfl
        · next hscope =>
          exact .leaf (hfrom.notify [_]) (.recovered (.inl hname) hforeign fun _ => hscope)
            rfl rfl rfl
      · next hparagraph =>
        split
        · next hname =>
          exact .leaf (hfrom.notify [_])
            (.recovered (.inr hname) hforeign fun h => absurd h hparagraph) rfl rfl rfl
        · dsimp only
          split
          · exact .none (hfrom.close _) rfl
          · exact .none (hfrom.notify [_]) rfl

/-! ### Walks of the builder -/

namespace Inserted

variable {t : Token} {S : List Element} {e : Element}

/-- An inserted element has a body if its start tag opens one and it is an HTML element. -/
theorem readsBody (h : Inserted b t S e) : e.readsBody = (e.isHtml && t.opensBody?.isSome) := by
  cases h with
  | @html name as slash =>
    cases slash with
    | false =>
      rw [Element.readsBody, Token.opensBody?]
      split <;> simp_all [Element.isHtml]
    | true => simp [Element.readsBody, Token.opensBody?]
  | root _ hroot =>
    rcases hroot with ⟨-, rfl⟩ | ⟨-, rfl⟩ <;> simp [Element.readsBody, Element.isHtml, ns_foreign]
  | nested hforeign =>
    have hns := ns_of_not_holdsHtml hforeign
    simp [Element.readsBody, Element.isHtml, ns_foreign, hns]
  | @recovered name hname =>
    have hbody : (isRawText name || isEscapable name) = false := by
      rcases hname with rfl | rfl <;> decide
    rw [Element.readsBody, hbody, Bool.and_false, Bool.false_and]
    rfl

theorem name_of_opensBody? {name : Text} (h : Inserted b t S e) (hhtml : e.isHtml = true)
    (ht : t.opensBody? = some name) : e.name = name := by
  obtain ⟨⟨as, rfl⟩, hname⟩ := Token.eq_of_opensBody? ht
  cases h with
  | html => rfl
  | root _ hroot =>
    rw [Element.isHtml, ns_foreign] at hhtml
    rcases hroot with ⟨-, rfl⟩ | ⟨-, rfl⟩ <;> cases hhtml
  | nested hforeign =>
    rw [Element.isHtml, ns_foreign] at hhtml
    rw [Element.holdsHtml, Element.isHtml, hhtml] at hforeign
    cases hforeign

end Inserted

/-- What a token does that is neither text nor a comment. -/
theorem ends_step (hcontext : b.context.holdsHtml = true) (hord : Ordered b.context b.stack)
    (t : Token) (htext : ∀ c, t ≠ .text c) (hcomment : ∀ c, t ≠ .comment c) :
    Ends P b t (b.step t) := by
  cases t with
  | doctype c => exact .none (.notice .stay) rfl
  | startTag name as slash => exact ends_startTag hcontext hord name as slash
  | endTag name => exact ends_endTag b name
  | comment c => exact absurd rfl (hcomment c)
  | text c => exact absurd rfl (htext c)

theorem endTag_html {S : List Element} {e : Element} (hS : b.stack = e :: S)
    (he : e.isHtml = true) (hname : e.name ∉ documentNames) (hbr : e.name ≠ "br".toList) :
    b.endTag e.name = { stack := S, events := [.leave] } := by
  have hforeign : foreignDepth? e.name b.stack = none := by rw [hS, foreignDepth?, if_pos he]
  have hclosed : closedBy e.name e = true := by
    unfold closedBy
    split
    · assumption
    · exact decide_eq_true rfl
  have hdepth (scope : Scope) (matching : Element → Bool) (hm : matching e = true) :
      scope.depth? matching b.stack = some 1 := by
    rw [hS, Scope.depth?, he, hm]
    rfl
  unfold endTag htmlEndTag
  rw [hforeign]
  dsimp only
  rw [if_neg hname]
  by_cases hp : e.name = "p".toList
  · rw [if_pos hp, hdepth _ _ (decide_eq_true rfl)]
    simp [Step.close, hS]
  · rw [if_neg hp, if_neg hbr, hdepth _ _ hclosed]
    simp [Step.close, hS]

theorem endTag_foreign {S : List Element} {e : Element} {name : Text} (hS : b.stack = e :: S)
    (he : e.isHtml = false) (hname : Ascii.sameName e.name name = true) :
    b.endTag name = { stack := S, events := [.leave] } := by
  have hforeign : foreignDepth? name b.stack = some 1 := by
    rw [hS, foreignDepth?, if_neg (by simp [he]), if_pos hname]
  unfold endTag
  rw [hforeign]
  simp [Step.close, hS]

/-- The events of a run of text. -/
theorem build_ofRun (b : Builder) (c : Text) (ts : List Token) :
    b.build (Token.ofRun c ++ ts) =
      Event.ofText (if b.skipNewline then dropNewline c else c) ++
        (b.after (Token.ofRun c)).build ts := by
  unfold Token.ofRun
  split
  · next hc =>
    subst hc
    cases b.skipNewline <;> rfl
  · rfl

theorem stack_after_ofRun (b : Builder) (c : Text) :
    (b.after (Token.ofRun c)).stack = b.stack := by
  unfold Token.ofRun
  split <;> rfl

@[simp] theorem context_push (b : Builder) (t : Token) : (b.push t).1.context = b.context := rfl

@[simp] theorem context_after (b : Builder) (ts : List Token) :
    (b.after ts).context = b.context := by
  induction ts generalizing b with
  | nil => rfl
  | cons t ts ih => rw [after_cons, ih, context_push]

/-- Whether `P` holds of every element that a well-formed token inserts in a state. -/
def Inserts (P : List Element → Element → Prop) (turn : Builder × Token) : Prop :=
  turn.2.WellFormed → ∀ S e, Inserted turn.1 turn.2 S e → P S e

/-- A walk that opens nothing leaves what is open in order. -/
theorem ordered_of_walk {context : Element} {S S' : List Element} {es : List Event}
    (h : Walk (fun _ _ => False) S es S') (hord : Ordered context S) : Ordered context S' := by
  induction h with
  | stay => exact hord
  | text _ _ ih | comment _ _ ih | notice _ ih => exact ih hord
  | leaf he | enter he | body he => exact he.elim
  | leave _ ih => exact ih hord.2

theorem ordered_push (hcontext : b.context.holdsHtml = true) (hord : Ordered b.context b.stack)
    (t : Token) :
    Ordered b.context (b.push t).1.stack := by
  by_cases htext : ∃ c, t = .text c ∨ t = .comment c
  · obtain ⟨c, rfl | rfl⟩ := htext <;> exact hord
  · have hends : Ends (fun _ _ => False) b t (b.step t) := ends_step hcontext hord t
      (fun c h => htext ⟨c, .inl h⟩) fun c h => htext ⟨c, .inr h⟩
    change Ordered b.context (b.step t).stack
    cases hends with
    | none hfrom => exact ordered_of_walk hfrom hord
    | leaf hfrom _ _ hstack => exact hstack ▸ ordered_of_walk hfrom hord
    | enter hfrom _ hsits _ hstack => exact hstack ▸ ⟨hsits, ordered_of_walk hfrom hord⟩

/-- **A step of the builder is a walk**, if its token opens no body. -/
theorem walk_step (hcontext : b.context.holdsHtml = true) (hord : Ordered b.context b.stack)
    {t : Token} (ht : t.WellFormed)
    (hforeign : ∀ name, t.opensBody? = some name → (b.push t).1.current.isHtml = false)
    (hP : Inserts P (b, t)) : Walk P b.stack (b.push t).2 (b.push t).1.stack := by
  by_cases htext : ∃ c, t = .text c ∨ t = .comment c
  · obtain ⟨c, rfl | rfl⟩ := htext
    · change Walk P b.stack (Event.ofText (if b.skipNewline then dropNewline c else c)) b.stack
      generalize (if b.skipNewline then dropNewline c else c) = c
      unfold Event.ofText
      split
      · exact .stay
      · next hc => exact .text hc .stay
    · exact .comment ht .stay
  · have hends : Ends P b t (b.step t) := ends_step hcontext hord t
      (fun c h => htext ⟨c, .inl h⟩) fun c h => htext ⟨c, .inr h⟩
    change Walk P b.stack (b.step t).events (b.step t).stack
    cases hends with
    | none hfrom => exact hfrom
    | leaf hfrom he hbody hstack hevents =>
      rw [hstack, hevents]
      exact hfrom.append (.leaf (hP ht _ _ he) (by rw [he.readsBody, hbody, Option.isSome_none,
        Bool.and_false]) .stay)
    | @enter s' e hfrom he _ hvoid hstack hevents =>
      have hcurrent : (b.push t).1.current = e := by
        change (b.step t).stack.headD b.context = e
        rw [hstack]
        rfl
      have hbody : e.readsBody = false := by
        rw [he.readsBody]
        cases hopens : t.opensBody? with
        | none => rw [Option.isSome_none, Bool.and_false]
        | some name => rw [← hcurrent, hforeign name hopens, Bool.false_and]
      rw [hstack, hevents]
      exact hfrom.append (.enter (hP ht _ _ he) hbody hvoid .stay)

/-- What a start tag does that opens the body of an HTML element. -/
theorem walk_body (hcontext : b.context.holdsHtml = true) (hord : Ordered b.context b.stack)
    {t : Token} {name : Text} (hname : t.opensBody? = some name)
    (hhtml : (b.push t).1.current.isHtml = true) :
    ∃ S e es, Walk P b.stack es S ∧ Inserted b t S e ∧ (b.push t).1.stack = e :: S ∧
      (b.push t).2 = es ++ [.enter e] ∧ e.readsBody = true ∧ e.name = name ∧
        Ordered b.context S := by
  obtain ⟨⟨as, rfl⟩, -⟩ := Token.eq_of_opensBody? hname
  have hord' := ordered_push hcontext hord (.startTag name as false)
  have hends : Ends P b (.startTag name as false) (b.step (.startTag name as false)) :=
    ends_startTag hcontext hord name as false
  cases hends with
  | none _ hbody =>
    rw [hname] at hbody
    cases hbody
  | leaf _ _ hbody =>
    rw [hname] at hbody
    cases hbody
  | @enter s' e hfrom he _ hvoid hstack hevents =>
    have hcurrent : (b.push (.startTag name as false)).1.current = e := by
      change (b.step (.startTag name as false)).stack.headD b.context = e
      rw [hstack]
      rfl
    rw [hcurrent] at hhtml
    have hpush : (b.push (.startTag name as false)).1.stack = e :: s'.stack := hstack
    rw [hpush] at hord'
    refine ⟨s'.stack, e, s'.events, hfrom, he, hstack, hevents, ?_, ?_, hord'.2⟩
    · rw [he.readsBody, hhtml, hname]
      rfl
    · exact he.name_of_opensBody? hhtml hname

theorem isBody_dropNewline {name c : Text} (h : IsBody name c) (skip : Bool) :
    IsBody name (if skip then dropNewline c else c) := by
  intro hraw hname hcloses
  refine h hraw hname ?_
  cases skip with
  | false => exact hcloses
  | true =>
    rw [if_pos rfl] at hcloses
    unfold dropNewline at hcloses
    split at hcloses
    · exact Tag.closes_of_cons hcloses
    · exact hcloses

/-- What is built of the tokens of an element with a body: the body leaves the element open, and its
end tag closes it. -/
theorem build_body {t : Token} {c : Text} {S : List Element} {e : Element} {es : List Event}
    (hstack : (b.push t).1.stack = e :: S) (hevents : (b.push t).2 = es ++ [.enter e])
    (hbody : e.readsBody = true) (hraw : (isRawText e.name || isEscapable e.name) = true)
    (ts : List Token) :
    (b.after (t :: (Token.ofRun c ++ [.endTag e.name]))).stack = S ∧
      b.build (t :: (Token.ofRun c ++ .endTag e.name :: ts)) =
        es ++ .enter e :: (Event.ofText (if (b.push t).1.skipNewline then dropNewline c else c) ++
          .leave :: (b.after (t :: (Token.ofRun c ++ [.endTag e.name]))).build ts) := by
  have hdocument : e.name ∉ documentNames := fun h => by
    rw [not_body_of_mem (.inr (.inl h))] at hraw
    cases hraw
  have hbr : e.name ≠ "br".toList := fun h => by
    rw [h] at hraw
    exact absurd hraw (by decide)
  have hafter : ((b.push t).1.after (Token.ofRun c)).stack = e :: S := by
    rw [stack_after_ofRun, hstack]
  have hend := endTag_html hafter (Element.isHtml_of_readsBody hbody) hdocument hbr
  rw [after_cons, after_append, build, hevents, build_ofRun]
  generalize (b.push t).1.after (Token.ofRun c) = b' at hend ⊢
  have hclosed : (b'.after [.endTag e.name]).stack = S := by
    change (b'.endTag e.name).stack = S
    rw [hend]
  refine ⟨hclosed, ?_⟩
  rw [build]
  change _ ++ (_ ++ ((b'.endTag e.name).events ++ _)) = _
  rw [hend]
  simp

/-- **What the builder makes of the tokens of a fragment is a walk to its end**: whatever holds of
every element that a turn inserts holds of every element that is opened. -/
theorem walk_build (hcontext : b.context.holdsHtml = true) (hord : Ordered b.context b.stack)
    {ts : List Token} (h : Scanned b ts) (hP : ∀ turn ∈ b.turns ts, Inserts P turn) :
    Walk P b.stack (b.build ts) [] := by
  have hfinish (S : List Element) : Walk P S (S.map fun _ => .leave) [] := by
    simpa using Walk.leaves (P := P) S S.length
  induction h with
  | nil => exact hfinish _
  | @token b t ts ht hforeign hts ih =>
    have hrest := ih hcontext (ordered_push hcontext hord t) fun turn hturn =>
      hP turn (List.mem_cons_of_mem _ hturn)
    exact (walk_step hcontext hord ht hforeign (hP _ List.mem_cons_self)).append hrest
  | @body b t name c ts ht hname hhtml hc hts ih =>
    obtain ⟨S, e, es, hwalk, he, hstack, hevents, hbody, rfl, hord'⟩ :=
      walk_body (P := P) hcontext hord hname hhtml
    obtain ⟨-, hraw⟩ := Token.eq_of_opensBody? hname
    obtain ⟨hclosed, hbuild⟩ := build_body (c := c) hstack hevents hbody hraw ts
    have hturns : ∀ turn ∈ (b.after (t :: (Token.ofRun c ++ [.endTag e.name]))).turns ts,
        turn ∈ b.turns (t :: (Token.ofRun c ++ .endTag e.name :: ts)) := by
      intro turn hturn
      have hsplit : t :: (Token.ofRun c ++ .endTag e.name :: ts) =
          (t :: (Token.ofRun c ++ [.endTag e.name])) ++ ts := by simp
      rw [hsplit, turns_append]
      exact List.mem_append_right _ hturn
    rw [context_after, hclosed] at ih
    have hrest := ih hcontext hord' fun turn hturn => hP turn (hturns turn hturn)
    rw [hbuild]
    exact hwalk.append (.body (hP (b, t) List.mem_cons_self ht S e he) hbody
      (isBody_dropNewline hc _) hrest)
  | @plaintext b t c ht hname hhtml =>
    obtain ⟨S, e, es, hwalk, he, hstack, hevents, hbody, hplain, hord'⟩ :=
      walk_body (P := P) hcontext hord hname hhtml
    have hbuild : b.build (t :: Token.ofRun c) =
        es ++ .enter e :: (Event.ofText (if (b.push t).1.skipNewline then dropNewline c else c) ++
          .leave :: S.map fun _ => .leave) := by
      have hrun := build_ofRun (b.push t).1 c []
      rw [List.append_nil] at hrun
      rw [build, hevents, hrun, build, finish, stack_after_ofRun, hstack]
      simp
    rw [hbuild]
    exact hwalk.append (.body (hP (b, t) List.mem_cons_self ht S e he) hbody
      (fun _ h => absurd hplain h) (hfinish S))

end Builder

namespace Builder

theorem context_of_mem_turns {b : Builder} {ts : List Token} {turn : Builder × Token}
    (h : turn ∈ b.turns ts) : turn.1.context = b.context := by
  induction ts generalizing b with
  | nil => cases h
  | cons t ts ih =>
    rcases List.mem_cons.1 h with rfl | h
    · rfl
    · exact (ih h).trans (context_push b t)

end Builder

/-- The turns in which a fragment is parsed. -/
def turns (context : Element) (t : Text) : List (Builder × Token) :=
  Builder.turns { context } (Builder.tokens { context } { rest := t })

variable {P : List Element → Element → Prop} {context : Element}

/-- **Parsing is a walk**, with whatever holds of every element that a turn inserts. -/
theorem walk_parse (hcontext : context.holdsHtml = true) (t : Text)
    (hP : ∀ turn ∈ turns context t, Builder.Inserts P turn) : Walk P [] (parse context t) [] := by
  rw [parse, Builder.consume_eq_build]
  have hord : Builder.Ordered context [] := trivial
  exact Builder.walk_build (b := { context }) hcontext hord (scanned_tokens _ t) hP

theorem close_parse (hcontext : context.holdsHtml = true) (t : Text) :
    Event.close 0 (parse context t) = true :=
  (walk_parse (P := fun _ _ => True) hcontext t fun _ _ _ _ _ _ => trivial).close

theorem grown_parse (hcontext : context.holdsHtml = true) (t : Text)
    (hP : ∀ turn ∈ turns context t, Builder.Inserts P turn) :
    Grown P [] (Forest.ofEvents (parse context t)) :=
  (walk_parse hcontext t hP).grown.1

end Stencil.Html
