import Stencil.Proofs.Html.Readback

/-!
# Rewriting a forest

A serializer that writes each part of a fragment for itself rewrites its forest: texts are escaped
or filled in, and an element is dropped, kept, or kept with its contents turned into text. The
rewriting is `Sound` if it keeps names, escapes what has to be escaped and puts no close tag into a
body; then the forest of every fragment is rewritten to a legible one (`legible_rewrite`), and so
what the serializer writes is read as the rewritten forest.
-/

namespace Stencil.Html

/-- What becomes of an element. -/
inductive Fate where
  | dropped
  | kept
  /-- The element is kept, and its contents become text. -/
  | flattened
  deriving DecidableEq

/-- A way to write each part of a forest for itself. -/
structure Rewrite where
  text : Element → Text → Text
  fate : Element → Fate
  /-- The element as it is written if it is kept. -/
  rebuilt : Element → Element

namespace Rewrite

/-- What is written for an element with written contents. -/
def elementText (r : Rewrite) (e : Element) (contents : Text) : Text :=
  match r.fate e with
  | .dropped => []
  | .kept => Html.elementText (r.rebuilt e) contents
  | .flattened => Html.elementText (r.rebuilt e) (escapeText contents)

/-- The serializer that rewrites. -/
def serializer (r : Rewrite) : Serializer Id where
  start _ := pure []
  text parent t := pure (r.text parent t)
  element _ e contents := pure (r.elementText e contents)
  comment _ t := pure (commentText t)
  notice _ := pure ()

/-- Whether a rewriting keeps what decides how its output is read. `Q` is what is known of the texts
that are rewritten and the elements they stand in. -/
structure Sound (r : Rewrite) (Q : Element → Text → Prop) : Prop where
  name : ∀ e, (r.rebuilt e).name = e.name
  ns : ∀ e, (r.rebuilt e).ns = e.ns
  slash : ∀ e, (r.rebuilt e).selfClosing = false
  attributes : ∀ e,
    ((r.rebuilt e).attributes.map Prod.fst).Sublist (e.attributes.map Prod.fst)
  bracket : ∀ e t, e.holdsRawText = false → '<' ∉ r.text e t
  newline : ∀ e t, (e.isHtml && dropsLeadingNewline e.name) = true → ∃ u, r.text e t = escapeText u
  escapable : ∀ e t, e.isHtml = true → isEscapable e.name = true → ∃ u, r.text e t = escapeText u
  body : ∀ e t, e.readsBody = true → Q e t → IsBody e.name t → IsBody e.name (r.text e t)

end Rewrite

namespace Forest

/-- A text in front of the children of an element: texts that meet are one, and an empty one is
nothing. -/
def consText (t : Text) : Forest → Forest
  | .text u rest => .text (t ++ u) rest
  | f => if t = [] then f else .text t f

/-- A forest rewritten inside an element. -/
def rewrite (r : Rewrite) (parent : Element) : Forest → Forest
  | .nil => .nil
  | .text t rest => consText (r.text parent t) (rewrite r parent rest)
  | .comment t rest => .comment t (rewrite r parent rest)
  | .element e children rest =>
    match r.fate e with
    | .dropped => rewrite r parent rest
    | .kept => .element (r.rebuilt e) (rewrite r e children) (rewrite r parent rest)
    | .flattened =>
      .element (r.rebuilt e) (.ofText (escapeText (rewrite r e children).source))
        (rewrite r parent rest)

/-- The texts of a forest, each with the element it stands in. -/
def texts (parent : Element) : Forest → List (Element × Text)
  | .nil => []
  | .text t rest => (parent, t) :: texts parent rest
  | .comment _ rest => texts parent rest
  | .element e children rest => texts e children ++ texts parent rest

def elements : Forest → List Element
  | .nil => []
  | .text _ rest => elements rest
  | .comment _ rest => elements rest
  | .element e children rest => e :: (elements children ++ elements rest)

theorem source_consText (t : Text) (f : Forest) : (consText t f).source = t ++ f.source := by
  unfold consText
  split
  · rw [source, source, List.append_assoc]
  · split
    · next ht => rw [ht, List.nil_append]
    · rfl

theorem mem_texts_consText {t : Text} {f : Forest} {parent : Element} {p : Element × Text}
    (h : p ∈ (consText t f).texts parent) : p ∈ f.texts parent ∨ p = (parent, t) ∨
      ∃ u, (parent, u) ∈ f.texts parent ∧ p = (parent, t ++ u) := by
  unfold consText at h
  split at h
  · next u rest =>
    rcases List.mem_cons.1 h with rfl | h
    · exact .inr (.inr ⟨u, List.mem_cons_self, rfl⟩)
    · exact .inl (List.mem_cons_of_mem _ h)
  · split at h
    · exact .inl h
    · rcases List.mem_cons.1 h with rfl | h
      · exact .inr (.inl rfl)
      · exact .inl h

theorem elements_consText (t : Text) (f : Forest) : (consText t f).elements = f.elements := by
  unfold consText
  split
  · rfl
  · split
    · rfl
    · rfl

end Forest

/-- **What a rewriting serializer writes is the source of the rewritten forest.** -/
theorem fold_rewrite (r : Rewrite) (parent : Element) (f : Forest) :
    r.serializer.fold parent f = pure (f.rewrite r parent).source := by
  induction f generalizing parent with
  | nil => rfl
  | text t rest ih =>
    rw [Serializer.fold, ih, Forest.rewrite, Forest.source_consText]
    rfl
  | comment t rest ih =>
    rw [Serializer.fold, ih, Forest.rewrite, Forest.source]
    rfl
  | element e children rest ihc ih =>
    rw [Serializer.fold, ihc, ih, Forest.rewrite]
    change pure (r.elementText e (children.rewrite r e).source ++ _) = _
    unfold Rewrite.elementText
    cases r.fate e with
    | dropped => rfl
    | kept => rfl
    | flattened =>
      dsimp only
      rw [Forest.source, Builder.source_ofText]
      rfl

/-- What a rewriting serializer writes for a fragment. -/
theorem run_rewrite (r : Rewrite) {context : Element} (hcontext : context.holdsHtml = true)
    (t : Text) : (r.serializer.run context (parse context t)).run =
      ((Forest.ofEvents (parse context t)).rewrite r context).source := by
  have hrun := Serializer.run_eq_fold r.serializer context (close_parse hcontext t)
  have hquiet : r.serializer.quiet = r.serializer := rfl
  rw [hquiet, fold_rewrite] at hrun
  rw [hrun]
  rfl

/-! ## Rewritten forests are legible -/

variable {context : Element} {S : List Element} {e : Element}

theorem ofText_legible {t : Text} (hbracket : '<' ∉ t)
    (hnewline : ((S.headD context).isHtml && dropsLeadingNewline (S.headD context).name) = true →
      ∃ u, t = escapeText u) : Legible context S (.ofText t) := by
  unfold Forest.ofText
  split
  · exact .nil
  · next ht => exact .text ht hbracket hnewline rfl .nil

theorem consText_legible {t : Text} {f : Forest} (hbracket : '<' ∉ t)
    (hnewline : ((S.headD context).isHtml && dropsLeadingNewline (S.headD context).name) = true →
      ∃ u, t = escapeText u) (h : Legible context S f) : Legible context S (f.consText t) := by
  by_cases hf : f.startsWithText = true
  · cases h with
    | @text _ u rest hu hbracket' hnewline' hnext hrest =>
      refine .text (List.append_ne_nil_of_right_ne_nil _ hu) ?_ ?_ hnext hrest
      · rw [List.mem_append, not_or]
        exact ⟨hbracket, hbracket'⟩
      · intro hdrops
        obtain ⟨v, rfl⟩ := hnewline hdrops
        obtain ⟨w, rfl⟩ := hnewline' hdrops
        exact ⟨v ++ w, (escapeText_append v w).symm⟩
    | nil | comment | element | body | plaintext => cases hf
  · have hcons : f.consText t = if t = [] then f else .text t f := by
      cases f with
      | text => exact absurd rfl hf
      | nil | comment | element => rfl
    rw [hcons]
    split
    · exact h
    · next ht => exact .text ht hbracket hnewline (by simpa using hf) h

namespace Rewrite.Sound

variable {r : Rewrite} {Q : Element → Text → Prop}

theorem isHtml (hr : r.Sound Q) (e : Element) : (r.rebuilt e).isHtml = e.isHtml := by
  rw [Element.isHtml, hr.ns]
  rfl

theorem holdsHtml (hr : r.Sound Q) (e : Element) : (r.rebuilt e).holdsHtml = e.holdsHtml := by
  unfold Element.holdsHtml Element.isIntegrationPoint
  rw [hr.isHtml, hr.ns, hr.name]

/-- The innermost element is known by its name and vocabulary before and after. -/
theorem headD (hr : r.Sound Q) (context : Element) (S : List Element) :
    ((S.map r.rebuilt).headD context).name = (S.headD context).name ∧
      ((S.map r.rebuilt).headD context).ns = (S.headD context).ns ∧
        ((S.map r.rebuilt).headD context).holdsHtml = (S.headD context).holdsHtml := by
  cases S with
  | nil => exact ⟨rfl, rfl, rfl⟩
  | cons e S => exact ⟨hr.name e, hr.ns e, hr.holdsHtml e⟩

theorem spelled (hr : r.Sound Q) (h : Spelled e) : Spelled (r.rebuilt e) := by
  have hmem : ∀ a ∈ (r.rebuilt e).attributes, ∃ b ∈ e.attributes, a.1 = b.1 := by
    intro a ha
    obtain ⟨b, hb, he⟩ := List.mem_map.1 ((hr.attributes e).subset (List.mem_map_of_mem ha))
    exact ⟨b, hb, he.symm⟩
  refine ⟨?_, ?_, fun a ha => ?_, fun a ha => ?_, ?_⟩
  · rw [hr.name]
    exact h.isName
  · rw [hr.name, hr.ns]
    exact h.name
  · obtain ⟨b, hb, he⟩ := hmem a ha
    rw [he]
    exact h.areNames b hb
  · obtain ⟨b, hb, he⟩ := hmem a ha
    rw [he, hr.ns]
    exact h.names b hb
  · have hsublist := (hr.attributes e).map Ascii.lower
    rw [List.map_map, List.map_map] at hsublist
    exact h.distinct.sublist hsublist

/-- An element that fits still fits after it and the elements around it are rewritten. -/
theorem fits (hr : r.Sound Q) (h : Builder.Fits context S e) :
    Builder.Fits context (S.map r.rebuilt) (r.rebuilt e) := by
  obtain ⟨hname, hns, hholds⟩ := hr.headD context S
  refine ⟨hr.spelled h.spelled, ?_⟩
  cases h.placed with
  | html hhtml hcurrent hdocument hsvg hmath hsettled =>
    refine .html (by rw [hr.ns, hhtml]) (by rw [hholds, hcurrent]) (by rwa [hr.name])
      (by rwa [hr.name]) (by rwa [hr.name]) ?_
    rw [hr.name, Builder.settled_map fun e => ⟨hr.name e, hr.ns e⟩]
    exact hsettled
  | root hcurrent hroot =>
    refine .root (by rw [hholds, hcurrent]) ?_
    rw [hr.name, hr.ns]
    exact hroot
  | nested hforeign hnested hstays =>
    refine .nested (by rw [hholds, hforeign]) (by rw [hr.ns, hns, hnested]) ?_
    rw [hr.name]
    rw [Builder.breaksOut, Bool.or_eq_false_iff] at hstays ⊢
    refine ⟨hstays.1, ?_⟩
    rw [Bool.and_eq_false_iff] at hstays ⊢
    refine hstays.2.imp_right fun hfont => ?_
    rw [List.any_eq_false] at hfont ⊢
    intro name hname hcontains
    refine hfont name hname ?_
    -- A name that is left was there before.
    obtain ⟨a, ha, he⟩ := List.any_eq_true.1 hcontains
    obtain ⟨b, hb, rfl⟩ := List.mem_map.1 ha
    obtain ⟨d, hd, hdb⟩ := List.mem_map.1 ((hr.attributes e).subset (List.mem_map_of_mem hb))
    refine List.any_eq_true.2 ⟨(Ascii.lower d.1, d.2), List.mem_map_of_mem hd, ?_⟩
    rw [hdb]
    exact he

theorem readsBody (hr : r.Sound Q) (e : Element) :
    (r.rebuilt e).readsBody = (e.isHtml && (isRawText e.name || isEscapable e.name)) := by
  rw [Element.readsBody, hr.isHtml, hr.name, hr.slash, Bool.not_false, Bool.and_true]

theorem isVoid (hr : r.Sound Q) (e : Element) : (r.rebuilt e).isVoid = e.isVoid := by
  rw [Element.isVoid, hr.isHtml, hr.name]
  rfl

theorem isPlaintext (hr : r.Sound Q) (e : Element) :
    (r.rebuilt e).isPlaintext = e.isPlaintext := by
  rw [Element.isPlaintext, Element.isHtmlNamed, hr.isHtml, hr.name]
  rfl

end Rewrite.Sound

/-- Whether an element fits where it stands, and a slash in its start tag makes no difference to how
its contents are read. -/
def Steady (context : Element) (S : List Element) (e : Element) : Prop :=
  Builder.Fits context S e ∧
    (e.isHtml = true → (isRawText e.name || isEscapable e.name) = true → e.selfClosing = true →
      e.isPlaintext = true)

theorem rewrite_ofText (r : Rewrite) (e : Element) (t : Text) :
    (Forest.ofText t).rewrite r e = .ofText (if t = [] then [] else r.text e t) := by
  unfold Forest.ofText
  by_cases ht : t = []
  · rw [if_pos ht, if_pos ht]
    rfl
  · rw [if_neg ht, if_neg ht]
    rfl

/-- An element that is steady and has no body before has none after. -/
theorem Rewrite.Sound.not_readsBody {r : Rewrite} {Q : Element → Text → Prop} (hr : r.Sound Q)
    (he : Steady context S e) (hbody : e.readsBody = false) (hplain : e.isPlaintext = false) :
    (r.rebuilt e).readsBody = false := by
  rw [hr.readsBody]
  cases hnames : e.isHtml && (isRawText e.name || isEscapable e.name) with
  | false => rfl
  | true =>
    rw [Element.readsBody, hnames, Bool.true_and, Bool.not_eq_false'] at hbody
    rw [Bool.and_eq_true] at hnames
    rw [he.2 hnames.1 hnames.2 hbody] at hplain
    cases hplain

namespace Rewrite.Sound

variable {r : Rewrite} {Q : Element → Text → Prop} {children rest : Forest}

/-- An element that nothing closes is legible whatever stands in it. -/
theorem legible_plaintext (hr : r.Sound Q) (he : Builder.Fits context S e)
    (hplain : e.isPlaintext = true)
    (hrest : Legible context (S.map r.rebuilt) (rest.rewrite r (S.headD context))) :
    Legible context (S.map r.rebuilt)
      ((Forest.element e children rest).rewrite r (S.headD context)) := by
  have hplain' : (r.rebuilt e).isPlaintext = true := by rw [hr.isPlaintext, hplain]
  rw [Forest.rewrite]
  cases r.fate e with
  | dropped => exact hrest
  | kept => exact .plaintext (hr.fits he) (hr.slash e) hplain'
  | flattened => exact .plaintext (hr.fits he) (hr.slash e) hplain'

theorem legible_element (hr : r.Sound Q) (he : Builder.Fits context S e)
    (hbody : (r.rebuilt e).readsBody = false) (hvoid : e.isVoid = true → children = .nil)
    (hchildren : Legible context (r.rebuilt e :: S.map r.rebuilt) (children.rewrite r e))
    (hrest : Legible context (S.map r.rebuilt) (rest.rewrite r (S.headD context))) :
    Legible context (S.map r.rebuilt)
      ((Forest.element e children rest).rewrite r (S.headD context)) := by
  have hvoid' : (r.rebuilt e).isVoid = true → children = .nil := by rwa [hr.isVoid]
  rw [Forest.rewrite]
  cases r.fate e with
  | dropped => exact hrest
  | kept =>
    exact .element (hr.fits he) (hr.slash e) hbody (fun hv => by rw [hvoid' hv]; rfl) hchildren
      hrest
  | flattened =>
    refine .element (hr.fits he) (hr.slash e) hbody (fun hv => by rw [hvoid' hv]; rfl) ?_ hrest
    exact ofText_legible (bracket_not_mem_escapeText _) fun _ => ⟨_, rfl⟩

theorem legible_body (hr : r.Sound Q) (he : Builder.Fits context S e) (hbody : e.readsBody = true)
    (hplain : e.isPlaintext = false) {c : Text} (hc : IsBody e.name c) (hQ : c ≠ [] → Q e c)
    (hrest : Legible context (S.map r.rebuilt) (rest.rewrite r (S.headD context))) :
    Legible context (S.map r.rebuilt)
      ((Forest.element e (.ofText c) rest).rewrite r (S.headD context)) := by
  obtain ⟨hhtml, hnames⟩ := Builder.names_of_readsBody hbody
  have hbody' : (r.rebuilt e).readsBody = true := by
    rw [hr.readsBody, hhtml, hnames]
    rfl
  have hplain' : (r.rebuilt e).isPlaintext = false := by rw [hr.isPlaintext, hplain]
  have hname := hr.name e
  rw [Forest.rewrite]
  cases r.fate e with
  | dropped => exact hrest
  | kept =>
    dsimp only
    rw [rewrite_ofText]
    refine .body (hr.fits he) (hr.slash e) hbody' hplain' ?_ ?_ hrest
    · rw [hname]
      split
      · exact fun _ _ => Tag.not_closes_nil e.name
      · next ht => exact hr.body e c hbody (hQ ht) hc
    · rw [hname]
      split
      · exact fun _ => ⟨[], rfl⟩
      · exact hr.escapable e c hhtml
  | flattened =>
    refine .body (hr.fits he) (hr.slash e) hbody' hplain' ?_ (fun _ => ⟨_, rfl⟩) hrest
    rw [hname]
    exact isBody_of_not_mem (bracket_not_mem_escapeText _)

end Rewrite.Sound

/-- **A sound rewriting makes every forest legible** in which every element is steady. -/
theorem legible_rewrite {r : Rewrite} {Q : Element → Text → Prop} (hr : r.Sound Q) {f : Forest}
    (h : Grown (Steady context) S f) (hQ : ∀ p ∈ f.texts (S.headD context), Q p.1 p.2)
    (hraw : (S.headD context).holdsRawText = false) :
    Legible context (S.map r.rebuilt) (f.rewrite r (S.headD context)) := by
  -- Text is only ever legible where markup is read: inside an element without a body.
  induction h with
  | nil => exact .nil
  | @text S t rest _ _ ih =>
    obtain ⟨hname, hns, -⟩ := hr.headD context S
    have hnewline := hr.newline (S.headD context) t
    rw [Forest.rewrite]
    refine consText_legible (hr.bracket _ t hraw) ?_ (ih (fun p hp => ?_) hraw)
    · rw [Element.isHtml, hname, hns]
      exact hnewline
    · exact hQ p (List.mem_cons_of_mem _ hp)
  | comment ht _ ih => exact .comment ht (ih hQ hraw)
  | @element S e children rest he hbody hvoid hchildren hrest ihc ih =>
    have hrest := ih (fun p hp => hQ p (List.mem_append_right _ hp)) hraw
    cases hplain : e.isPlaintext with
    | true => exact hr.legible_plaintext he.1 hplain hrest
    | false =>
      have hbody' := hr.not_readsBody he hbody hplain
      have hraw' := Builder.not_holdsRawText_of_not_readsBody (hr.slash e) hbody'
      rw [Element.holdsRawText, hr.isHtml, hr.name] at hraw'
      exact hr.legible_element he.1 hbody' hvoid
        (ihc (fun p hp => hQ p (List.mem_append_left _ hp)) hraw') hrest
  | @body S e c rest he hbody hc hrest ih =>
    have hrest := ih (fun p hp => hQ p (List.mem_append_right _ hp)) hraw
    cases hplain : e.isPlaintext with
    | true => exact hr.legible_plaintext he.1 hplain hrest
    | false =>
      refine hr.legible_body he.1 hbody hplain hc (fun ht => hQ (e, c) ?_) hrest
      refine List.mem_append_left _ ?_
      rw [Forest.ofText, if_neg ht]
      exact List.mem_cons_self

/-! ## Turns that leave every element steady -/

/-- Whether a turn opens an HTML element with a body by a start tag with a slash. Its contents are
read as markup, and written without the slash they would be read as a body. -/
def slashesBody : Builder × Token → Bool
  | (b, .startTag name _ true) =>
    (isRawText name || isEscapable name) && name ≠ plaintextName && b.current.holdsHtml
  | _ => false

/-- Whether an event inserts an element without contents. -/
def Event.isLeaf : Event → Bool
  | .leaf _ => true
  | _ => false

/-- Whether a turn inserts an element for an end tag where contents are not HTML. Written out, its
start tag would end the foreign content around it. -/
def recoversInForeign : Builder × Token → Bool
  | (b, .endTag name) => !b.current.holdsHtml && (b.endTag name).events.any Event.isLeaf
  | _ => false

/-- An end tag that inserts an element where contents are not HTML recovers in foreign content. -/
theorem holdsHtml_of_recovered {b : Builder} {name : Text} {S : List Element} {e : Element}
    (h : Builder.Inserted b (.endTag name) S e)
    (hrecovers : recoversInForeign (b, .endTag name) = false) : b.current.holdsHtml = true := by
  cases h with
  | recovered hname hforeign hscope =>
    cases hholds : b.current.holdsHtml with
    | true => rfl
    | false =>
      have hleaf : (b.endTag name).events.any Event.isLeaf = true := by
        unfold Builder.endTag Builder.htmlEndTag
        rw [hforeign]
        dsimp only
        rcases hname with rfl | rfl
        · rw [if_neg (by decide), if_pos (by rfl), hscope rfl]
          rfl
        · rfl
      rw [recoversInForeign, hholds, hleaf] at hrecovers
      cases hrecovers

/-- What a turn inserts is steady, if it neither slashes a body nor recovers in foreign content. -/
theorem steady_of_inserted {b : Builder} {t : Token} {S : List Element} {e : Element}
    (h : Builder.Inserted b t S e) (ht : t.WellFormed) (hslash : slashesBody (b, t) = false)
    (hrecovers : recoversInForeign (b, t) = false) : Steady b.context S e := by
  refine ⟨Builder.fits_of_inserted h ht ?_, ?_⟩
  · rintro name rfl
    exact holdsHtml_of_recovered h hrecovers
  · intro hhtml hnames hself
    cases h with
    | @html name as slash S _ _ _ _ _ hcurrent =>
      replace hself : slash = true := hself
      subst hself
      rw [slashesBody, hnames, hcurrent hnames, Bool.true_and, Bool.and_true,
        decide_eq_false_iff_not, Decidable.not_not] at hslash
      rw [Element.isPlaintext, Element.isHtmlNamed, hhtml, hslash]
      rfl
    | root _ hroot =>
      rw [Element.isHtml, Builder.ns_foreign] at hhtml
      rcases hroot with ⟨-, rfl⟩ | ⟨-, rfl⟩ <;> cases hhtml
    | nested hforeign =>
      rw [Element.isHtml, Builder.ns_foreign] at hhtml
      exact absurd (of_decide_eq_true hhtml) (Builder.ns_of_not_holdsHtml hforeign)
    | recovered => cases hself

/-- The forest of a fragment is steady, if no turn slashes a body or recovers in foreign content. -/
theorem grown_steady {context : Element} (hcontext : context.holdsHtml = true) (t : Text)
    (hslash : ∀ turn ∈ turns context t, slashesBody turn = false)
    (hrecovers : ∀ turn ∈ turns context t, recoversInForeign turn = false) :
    Grown (Steady context) [] (Forest.ofEvents (parse context t)) := by
  refine grown_parse hcontext t fun turn hturn hwell S e he => ?_
  have hsame : turn.1.context = context := Builder.context_of_mem_turns hturn
  rw [← hsame]
  exact steady_of_inserted he hwell (hslash turn hturn) (hrecovers turn hturn)

/-- What is read of a rewritten fragment: the rewritten forest. -/
theorem parse_source {context : Element} (hcontext : context.name ∉ Builder.kinNames)
    (hraw : context.holdsRawText = false) {G : Forest} (h : Legible context [] G) :
    parse context G.source = G.reread context [] [] [] := by
  have hread := Builder.consume_source hcontext h hraw (.inl rfl)
  rw [List.append_nil, Builder.consume_nil] at hread
  exact hread

end Stencil.Html
