import Stencil.Proofs.Html.Fits
import Stencil.Proofs.Html.Markup

/-!
# Reading a fragment back

`Forest.source` writes a forest whose texts are already escaped. A forest is `Legible` if every
element fits where it stands and every text is one that the scanner reads whole, and
`consume_source` says what such a source is read as, in front of whatever follows it: the events of
the forest, `Forest.reread`. An HTML `plaintext` element swallows all that follows, its own end tag
included.
-/

namespace Stencil.Html

/-- Whether nothing closes the element. -/
def Element.isPlaintext (e : Element) : Bool := e.isHtmlNamed plaintextName

/-- What text in an element is read as. -/
def textRead (parent : Element) (t : Text) : Text :=
  if parent.holdsRawText then t else Reference.decode t

namespace Forest

/-- Whether the first of the children is text. -/
def startsWithText : Forest → Bool
  | .text _ _ => true
  | _ => false

/-- A forest written out, with its texts as they are. -/
def source : Forest → Text
  | .nil => []
  | .text t rest => t ++ source rest
  | .comment t rest => commentText t ++ source rest
  | .element e children rest => elementText e (source children) ++ source rest

/-- The events of the source of a forest, inside the open elements `S`, where `after` follows and is
read as `events`. -/
def reread (context : Element) :
    Forest → (S : List Element) → (after : Text) → (events : List Event) → List Event
  | .nil, _, _, events => events
  | .text t rest, S, after, events =>
    .text (textRead (S.headD context) t) :: reread context rest S after events
  | .comment t rest, S, after, events => .comment t :: reread context rest S after events
  | .element e children rest, S, after, events =>
    if e.isPlaintext then
      .enter e :: (Event.ofText (source children ++ endTagText e.name ++ source rest ++ after) ++
        (e :: S).map fun _ => .leave)
    else if e.isVoid then .leaf e :: reread context rest S after events
    else
      .enter e :: reread context children (e :: S) (endTagText e.name ++ source rest ++ after)
        (.leave :: reread context rest S after events)

end Forest

/-- A forest whose source is read as the forest: every element fits where it stands, and texts are
escaped, apart from the bodies of elements where markup is not read, which hold no close tag. -/
inductive Legible (context : Element) : List Element → Forest → Prop where
  | nil {S : List Element} : Legible context S .nil
  | text {S : List Element} {t : Text} {rest : Forest} (ht : t ≠ []) (hbracket : '<' ∉ t)
      (hnewline : ((S.headD context).isHtml && dropsLeadingNewline (S.headD context).name) = true →
        ∃ u, t = escapeText u)
      (hnext : rest.startsWithText = false) (hrest : Legible context S rest) :
      Legible context S (.text t rest)
  | comment {S : List Element} {t : Text} {rest : Forest} (ht : Text.cut? "-->".toList t = none)
      (hrest : Legible context S rest) : Legible context S (.comment t rest)
  | element {S : List Element} {e : Element} {children rest : Forest}
      (he : Builder.Fits context S e) (hslash : e.selfClosing = false)
      (hbody : e.readsBody = false) (hvoid : e.isVoid = true → children = .nil)
      (hchildren : Legible context (e :: S) children) (hrest : Legible context S rest) :
      Legible context S (.element e children rest)
  | body {S : List Element} {e : Element} {t : Text} {rest : Forest}
      (he : Builder.Fits context S e) (hslash : e.selfClosing = false)
      (hbody : e.readsBody = true) (hplain : e.isPlaintext = false) (hc : IsBody e.name t)
      (hescaped : isEscapable e.name = true → ∃ u, t = escapeText u)
      (hrest : Legible context S rest) : Legible context S (.element e (.ofText t) rest)
  /-- What stands inside and after an element that nothing closes does not matter. -/
  | plaintext {S : List Element} {e : Element} {children rest : Forest}
      (he : Builder.Fits context S e) (hslash : e.selfClosing = false)
      (hplain : e.isPlaintext = true) : Legible context S (.element e children rest)

namespace Builder

/-! ### Turns on a source -/

/-- A text whose start is no text: it is empty, or starts with a tag or a comment. -/
def Opens (t : Text) : Prop :=
  t = [] ∨ ∃ u token rest, t = '<' :: u ∧ Lexeme.read '<' u = (.token token, rest) ∧
    ∀ c, token ≠ .text c

theorem Opens.head {t : Text} (h : Opens t) : t.head?.all (· = '<') = true := by
  rcases h with rfl | ⟨u, token, rest, rfl, -⟩
  · rfl
  · rfl

theorem Opens.pull {t : Text} (h : Opens t) : (Scanner.pull t).1 = [] := by
  rcases h with rfl | ⟨u, token, rest, rfl, hread, -⟩
  · rw [Scanner.pull]
  · rw [Scanner.pull_token hread]

theorem consume_nil (b : Builder) : b.consume { rest := [] } = b.finish := by
  rw [consume_eq_build, tokens_nil]
  rfl

theorem consume_token (b : Builder) {t rest : Text} {token : Token}
    (h : Scanner.pull t = ([], some token, rest)) : b.consume { rest := t } =
      (b.push token).2 ++ (b.push token).1.consume { rest, body := token.opensBody? } := by
  rw [consume_eq_build, consume_eq_build, tokens_of_pull_some b h]
  rfl

theorem consume_text (b : Builder) {t run rest : Text} (hrest : Opens rest) (hrun : run ≠ [])
    (h : Scanner.pull t = (run, (Scanner.pull rest).2)) : b.consume { rest := t } =
      Event.ofText (if b.skipNewline then dropNewline run else run) ++
        { b with skipNewline := false }.consume { rest } := by
  have htoken : Token.ofRun run = [.text run] := if_neg hrun
  have hempty := hrest.pull
  rcases hpull : Scanner.pull rest with ⟨empty, _ | token, after⟩
  · rw [hpull] at h hempty
    rw [consume_eq_build, consume_eq_build, tokens_of_pull_none b h, tokens_of_pull_none _ hpull,
      htoken, show empty = [] from hempty]
    rfl
  · rw [hpull] at h hempty
    rw [show empty = [] from hempty] at hpull
    rw [consume_eq_build, consume_eq_build, tokens_of_pull_some b h, tokens_of_pull_some _ hpull,
      htoken]
    rfl

/-- In front of a tag or the end it does not matter whether a line feed would be dropped. -/
theorem consume_skip (b : Builder) {t : Text} (h : Opens t) (skip : Bool) :
    { b with skipNewline := skip }.consume { rest := t } = b.consume { rest := t } := by
  rcases h with rfl | ⟨u, token, rest, rfl, hread, htext⟩
  · rw [consume_nil, consume_nil]
    rfl
  · rw [consume_token _ (Scanner.pull_token hread), consume_token _ (Scanner.pull_token hread)]
    cases token with
    | text c => exact absurd rfl (htext c)
    | doctype | comment | startTag | endTag => rfl

theorem consume_foreign {b : Builder} (hb : b.current.isHtml = false) (t : Text)
    (body : Option Text) : b.consume { rest := t, body } = b.consume { rest := t } := by
  rw [consume_eq_build, consume_eq_build, tokens_foreign hb]

/-! ### Tags of an element -/

variable {context : Element} {S : List Element} {e : Element}

theorem push_startTag (hcontext : context.name ∉ kinNames) (h : Fits context S e)
    (hslash : e.selfClosing = false) (skip : Bool) :
    ({ context, stack := S, skipNewline := skip } : Builder).push
        (.startTag (Ascii.lower e.name) (Tag.writtenAttributes e.attributes) false) =
      if e.isVoid then ({ context, stack := S }, [.leaf e])
      else ({ context, stack := e :: S,
              skipNewline := e.isHtml && dropsLeadingNewline e.name }, [.enter e]) := by
  have hvalues : values (Tag.writtenAttributes e.attributes) = e.tagAttributes := by
    simp [values, Tag.writtenAttributes, Element.tagAttributes]
  have hstep :=
    startTag_of_fits (b := { context, stack := S, skipNewline := skip }) hcontext h hslash
  rw [push, step, ← values, hvalues, hstep]
  split
  · rfl
  · rfl

theorem consume_startTag (hcontext : context.name ∉ kinNames) (h : Fits context S e)
    (hslash : e.selfClosing = false) (rest : Text) :
    Builder.consume { context, stack := S }
        { rest := '<' :: (e.name ++ (attributesText e.attributes ++ '>' :: rest)) } =
      if e.isVoid then .leaf e :: Builder.consume { context, stack := S } { rest }
      else .enter e :: Builder.consume
        { context, stack := e :: S, skipNewline := e.isHtml && dropsLeadingNewline e.name }
        { rest, body := (Token.startTag (Ascii.lower e.name) [] false).opensBody? } := by
  have hdistinct : ((Tag.writtenAttributes e.attributes).map Prod.fst).Nodup := by
    rw [Tag.writtenAttributes, List.map_map]
    exact h.spelled.distinct
  have hread := Lexeme.read_startTag h.spelled.isName h.spelled.areNames hdistinct rest
  rw [consume_token _ (Scanner.pull_token hread), push_startTag hcontext h hslash]
  split
  · next hvoid =>
    rw [Element.isVoid, Bool.and_eq_true] at hvoid
    have hlower : Ascii.lower e.name = e.name := by
      have hname := h.spelled.name
      rw [of_decide_eq_true hvoid.1] at hname
      exact hname.symm
    rw [hlower, opensBody?_of_not (not_body_of_mem (.inl (of_decide_eq_true hvoid.2)))]
    rfl
  · rfl

theorem lower_of_isHtml (h : Spelled e) (he : e.isHtml = true) : Ascii.lower e.name = e.name := by
  have hname := h.name
  rw [of_decide_eq_true he] at hname
  exact hname.symm

theorem endTag_of_fits (h : Fits context S e) (hvoid : e.isVoid = false) (skip : Bool) :
    ({ context, stack := e :: S, skipNewline := skip } : Builder).endTag (Ascii.lower e.name) =
      { stack := S, events := [.leave] } := by
  cases he : e.isHtml with
  | false => exact endTag_foreign rfl he (Ascii.sameName_lower e.name)
  | true =>
    rw [lower_of_isHtml h.spelled he]
    refine endTag_html rfl he ?_ fun hbr => ?_
    · cases h.placed with
      | html _ _ hname => exact hname
      | root _ hroot =>
        rcases hroot with ⟨hname, -⟩ | ⟨hname, -⟩
        · rw [hname]
          decide
        · rw [hname]
          decide
      | nested hforeign hns =>
        rw [Element.isHtml, hns] at he
        exact absurd (of_decide_eq_true he) (ns_of_not_holdsHtml hforeign)
    · rw [Element.isVoid, he, hbr] at hvoid
      exact absurd hvoid (by decide)

theorem opens_endTagText {name : Text} (h : Tag.IsName name) (rest : Text) :
    Opens (endTagText name ++ rest) := by
  refine .inr ⟨'/' :: (name ++ '>' :: rest), _, rest, endTagText_append name rest,
    Lexeme.read_endTag h rest, ?_⟩
  intro c hc
  cases hc

theorem consume_endTag (h : Fits context S e) (hvoid : e.isVoid = false) (rest : Text) :
    Builder.consume { context, stack := e :: S } { rest := endTagText e.name ++ rest } =
      .leave :: Builder.consume { context, stack := S } { rest } := by
  have hread := Lexeme.read_endTag h.spelled.isName rest
  rw [endTagText_append, consume_token _ (Scanner.pull_token hread), push, step,
    endTag_of_fits h hvoid]
  rfl

/-! ### Contents of an element -/

/-- The line feed that is written after a start tag for one that is dropped there. -/
def restored (e : Element) (contents : Text) : Text :=
  if e.isHtml && dropsLeadingNewline e.name && contents.head? = some '\n' then ['\n'] else []

theorem closing_eq (hvoid : e.isVoid = false) (contents : Text) :
    closing e contents = restored e contents ++ (contents ++ endTagText e.name) := by
  rw [Element.isVoid] at hvoid
  unfold closing restored
  cases he : e.isHtml with
  | false => rfl
  | true =>
    rw [he, Bool.true_and] at hvoid
    simp only [Bool.not_true, Bool.false_eq_true, if_false, hvoid, Bool.true_and, Bool.and_eq_true]
    split
    · rfl
    · rfl

theorem closing_void (hvoid : e.isVoid = true) : closing e [] = [] := by
  rw [Element.isVoid, Bool.and_eq_true] at hvoid
  rw [closing, hvoid.1, hvoid.2]
  simp

theorem opens_source {G : Forest} (h : Legible context S G) (hG : G.startsWithText = false)
    {rest : Text} (hrest : Opens rest) : Opens (G.source ++ rest) := by
  have helement {e : Element} (he : Fits context S e) (contents rest : Text) :
      Opens (elementText e contents ++ rest) := by
    have hdistinct : ((Tag.writtenAttributes e.attributes).map Prod.fst).Nodup := by
      rw [Tag.writtenAttributes, List.map_map]
      exact he.spelled.distinct
    refine .inr ⟨_, _, _, elementText_append e contents rest,
      Lexeme.read_startTag he.spelled.isName he.spelled.areNames hdistinct _, ?_⟩
    intro c hc
    cases hc
  cases h with
  | nil => exact hrest
  | text => cases hG
  | @comment _ t G ht _ =>
    refine .inr ⟨'!' :: '-' :: '-' :: (t ++ '-' :: '-' :: '>' :: (G.source ++ rest)), _, _, ?_,
      Lexeme.read_comment ht _, ?_⟩
    · rw [Forest.source, List.append_assoc, commentText_append]
    · intro c hc
      cases hc
  | element he =>
    rw [Forest.source, List.append_assoc]
    exact helement he _ _
  | body he =>
    rw [Forest.source, List.append_assoc]
    exact helement he _ _
  | plaintext he =>
    rw [Forest.source, List.append_assoc]
    exact helement he _ _

/-- Reading text in front of a tag or the end, where a line feed is dropped or not. -/
theorem consume_run {t : Text} (ht : t ≠ []) (hbracket : '<' ∉ t) {rest : Text}
    (hrest : Opens rest) (skip : Bool) :
    Builder.consume { context, stack := S, skipNewline := skip } { rest := t ++ rest } =
      Event.ofText (if skip then dropNewline (Reference.decode t) else Reference.decode t) ++
        Builder.consume { context, stack := S } { rest } := by
  have hpull := Scanner.pull_text ht hbracket hrest.head
  rw [hrest.pull, List.append_nil] at hpull
  exact consume_text _ hrest (Reference.decode_ne_nil ht) hpull

theorem ofText_of_ne_nil {t : Text} (h : t ≠ []) : Event.ofText t = [.text t] := if_neg h

theorem dropNewline_of_head? {t : Text} (h : t.head? ≠ some '\n') : dropNewline t = t := by
  unfold dropNewline
  split
  · exact absurd rfl h
  · rfl

/-- Escaped text is read as the text, with the line feed that is dropped restored. -/
theorem read_restored (e : Element) {u contents : Text}
    (hhead : contents.head? = (escapeText u).head?) :
    (if e.isHtml && dropsLeadingNewline e.name then
      dropNewline (Reference.decode (restored e contents ++ escapeText u))
      else Reference.decode (restored e contents ++ escapeText u)) = u := by
  unfold restored
  rw [hhead]
  cases hskip : e.isHtml && dropsLeadingNewline e.name with
  | false => simp
  | true =>
    by_cases hnewline : (escapeText u).head? = some '\n'
    · rw [decide_eq_true hnewline]
      change dropNewline (Reference.decode ('\n' :: escapeText u)) = u
      rw [Reference.decode_cons (by decide), Reference.decode_escapeText]
      rfl
    · rw [decide_eq_false hnewline]
      change dropNewline (Reference.decode (escapeText u)) = u
      rw [Reference.decode_escapeText, dropNewline_of_head?]
      exact fun h => hnewline ((head?_escapeText u).2 h)

theorem bracket_not_mem_restored (e : Element) (contents u : Text) :
    '<' ∉ restored e contents ++ escapeText u := by
  intro h
  rcases List.mem_append.1 h with h | h
  · unfold restored at h
    split at h
    · exact absurd h (by decide)
    · cases h
  · exact bracket_not_mem_escapeText u h

/-- The contents of an element are read as if nothing were dropped after its start tag. -/
theorem consume_restored {C : Forest} (h : Legible context (e :: S) C) {rest : Text}
    (hrest : Opens rest) :
    Builder.consume
        { context, stack := e :: S, skipNewline := e.isHtml && dropsLeadingNewline e.name }
        { rest := restored e C.source ++ (C.source ++ rest) } =
      Builder.consume { context, stack := e :: S } { rest := C.source ++ rest } := by
  cases hskip : e.isHtml && dropsLeadingNewline e.name with
  | false =>
    rw [restored, hskip, Bool.false_and]
    rfl
  | true =>
    cases hC : C.startsWithText with
    | false =>
      have hopens := opens_source h hC hrest
      have hhead : C.source.head? ≠ some '\n' := by
        have hall := (opens_source h hC (.inl rfl)).head
        rw [List.append_nil] at hall
        intro hhead
        rw [hhead] at hall
        cases hall
      rw [restored, hskip, decide_eq_false hhead]
      exact consume_skip { context, stack := e :: S } hopens true
    | true =>
      cases h with
      | @text _ t C ht hbracket hnewline hnext hrestC =>
        obtain ⟨u, rfl⟩ := hnewline hskip
        have hopens := opens_source hrestC hnext hrest
        have hhead : (Forest.text (escapeText u) C).source.head? = (escapeText u).head? := by
          rw [Forest.source, List.head?_append]
          cases hu : escapeText u with
          | nil => exact absurd hu ht
          | cons c cs => rfl
        have hread := read_restored e hhead
        have hne : restored e (Forest.text (escapeText u) C).source ++ escapeText u ≠ [] :=
          List.append_ne_nil_of_right_ne_nil _ ht
        have hrestored : Builder.consume { context, stack := e :: S, skipNewline := true }
            { rest := restored e (Forest.text (escapeText u) C).source ++ escapeText u ++
              (C.source ++ rest) } = _ :=
          consume_run hne (bracket_not_mem_restored e _ u) hopens true
        have hplain : Builder.consume { context, stack := e :: S }
            { rest := escapeText u ++ (C.source ++ rest) } = _ :=
          consume_run ht hbracket hopens false
        rw [hskip] at hread
        rw [hread] at hrestored
        rw [Reference.decode_escapeText] at hplain
        rw [Forest.source] at hrestored ⊢
        rw [List.append_assoc (escapeText u), hplain, ← List.append_assoc, hrestored]
        rfl
      | nil | comment | element | body | plaintext => cases hC

/-! ### Bodies -/

theorem names_of_readsBody (h : e.readsBody = true) :
    e.isHtml = true ∧ (isRawText e.name || isEscapable e.name) = true := by
  rw [Element.readsBody, Bool.and_eq_true, Bool.and_eq_true] at h
  exact h.1

theorem not_isVoid_of_readsBody (h : e.readsBody = true) : e.isVoid = false := by
  obtain ⟨-, hname⟩ := names_of_readsBody h
  cases hvoid : e.isVoid with
  | false => rfl
  | true =>
    rw [Element.isVoid, Bool.and_eq_true] at hvoid
    rw [not_body_of_mem (.inl (of_decide_eq_true hvoid.2))] at hname
    cases hname

theorem bracket_not_mem_of_body {name : Text} (h : (isRawText name || isEscapable name) = true) :
    '<' ∉ name := by
  have hnames : ∀ n ∈ rawTextNames ++ escapableNames, '<' ∉ n := by decide
  refine hnames name (List.mem_append.2 ?_)
  rw [Bool.or_eq_true] at h
  exact h.imp of_decide_eq_true of_decide_eq_true

theorem not_drops_of_isRawText {name : Text} (h : isRawText name = true) :
    dropsLeadingNewline name = false := by
  have hnames : ∀ n ∈ rawTextNames, dropsLeadingNewline n = false := by decide
  exact hnames name (of_decide_eq_true h)

theorem push_endTag (h : Fits context S e) (hvoid : e.isVoid = false) {b : Builder}
    (hcontext : b.context = context) (hstack : b.stack = e :: S) :
    b.push (.endTag (Ascii.lower e.name)) = ({ context, stack := S }, [.leave]) := by
  obtain ⟨c, stack, skip⟩ := b
  obtain rfl : c = context := hcontext
  obtain rfl : stack = e :: S := hstack
  rw [push, step, endTag_of_fits h hvoid]

theorem name_ne_plaintextName (hhtml : e.isHtml = true) (hplain : e.isPlaintext = false) :
    e.name ≠ plaintextName := by
  intro hname
  rw [Element.isPlaintext, Element.isHtmlNamed, hhtml, hname, decide_eq_true rfl] at hplain
  cases hplain

/-- Neither a body that is not read as markup nor an escaped one holds a close tag, and it is read
as what was written, without the line feed that was put in front of it. -/
theorem read_body (hbody : e.readsBody = true) (hplain : e.isPlaintext = false) {t : Text}
    (hc : IsBody e.name t) (hescaped : isEscapable e.name = true → ∃ u, t = escapeText u) :
    (¬Tag.Closes e.name (restored e t ++ t)) ∧
      (if e.isHtml && dropsLeadingNewline e.name then
        dropNewline (if isEscapable e.name then Reference.decode (restored e t ++ t)
          else restored e t ++ t)
        else if isEscapable e.name then Reference.decode (restored e t ++ t)
          else restored e t ++ t) = textRead e t := by
  obtain ⟨hhtml, hname⟩ := names_of_readsBody hbody
  cases hesc : isEscapable e.name with
  | true =>
    obtain ⟨u, rfl⟩ := hescaped hesc
    refine ⟨fun hcloses => bracket_not_mem_restored e _ u (Tag.mem_of_closes hcloses), ?_⟩
    have hraw : e.holdsRawText = false := by
      rw [Element.holdsRawText, Scanner.not_isRawText_of_isEscapable hesc, Bool.and_false]
    rw [textRead, hraw]
    have hread : _ = u := @read_restored e u (escapeText u) rfl
    simpa using hread
  | false =>
    rw [hesc, Bool.or_false] at hname
    have hdrops := not_drops_of_isRawText hname
    have hrestored : restored e t = [] := by
      rw [restored, hdrops, Bool.and_false, Bool.false_and]
      rfl
    rw [hrestored, hdrops, textRead, Element.holdsRawText, hhtml, hname]
    exact ⟨hc hname (name_ne_plaintextName hhtml hplain), rfl⟩

theorem consume_body (h : Fits context S e) (hbody : e.readsBody = true)
    (hplain : e.isPlaintext = false) {t : Text} (hc : IsBody e.name t)
    (hescaped : isEscapable e.name = true → ∃ u, t = escapeText u) (rest : Text) :
    Builder.consume
        { context, stack := e :: S, skipNewline := e.isHtml && dropsLeadingNewline e.name }
        { rest := restored e t ++ (t ++ (endTagText e.name ++ rest)), body := some e.name } =
      Event.ofText (textRead e t) ++
        .leave :: Builder.consume { context, stack := S } { rest } := by
  obtain ⟨hhtml, hname⟩ := names_of_readsBody hbody
  have hlower := lower_of_isHtml h.spelled hhtml
  have hne := name_ne_plaintextName hhtml hplain
  have hvoid := not_isVoid_of_readsBody hbody
  obtain ⟨hcloses, hread⟩ := read_body hbody hplain hc hescaped
  have htext : restored e t ++ (t ++ (endTagText e.name ++ rest)) =
      (restored e t ++ t) ++ '<' :: '/' :: (e.name ++ '>' :: rest) := by
    rw [endTagText_append, List.append_assoc]
  have hcut := Tag.cutCloseTag?_append (bracket_not_mem_of_body hname) hcloses rest
  have htokens : Scanner.readBody e.name (restored e t ++ (t ++ (endTagText e.name ++ rest))) =
      (Token.ofRun (if isEscapable e.name then Reference.decode (restored e t ++ t)
        else restored e t ++ t) ++ [.endTag e.name], rest) := by
    have hread : ∀ t, Scanner.readBody e.name t = _ := fun t => if_neg hne
    rw [hread, htext, hcut]
    rfl
  have hcurrent (skip : Bool) :
      ({ context, stack := e :: S, skipNewline := skip } : Builder).current.isHtml = true := hhtml
  rw [consume_eq_build, tokens_body (hcurrent _) htokens, List.append_assoc, build_ofRun, hread,
    after_append]
  generalize hb : Builder.after _ (Token.ofRun _) = b
  have hpush : b.push (.endTag e.name) = ({ context, stack := S }, [.leave]) := by
    rw [← hlower, push_endTag h hvoid]
    · rw [← hb, context_after]
    · rw [← hb, stack_after_ofRun]
  change _ ++ ((b.push (.endTag e.name)).2 ++ (b.push (.endTag e.name)).1.build
    ((b.push (.endTag e.name)).1.tokens { rest })) = _
  rw [hpush, consume_eq_build]
  rfl

/-- Reading everything that follows the start tag of an element that nothing closes. -/
theorem consume_plaintext (hhtml : e.isHtml = true) (t : Text) :
    Builder.consume { context, stack := e :: S } { rest := t, body := some plaintextName } =
      Event.ofText t ++ (e :: S).map fun _ => .leave := by
  have htokens : Scanner.readBody plaintextName t = (Token.ofRun t, []) := if_pos rfl
  have hcurrent : ({ context, stack := e :: S } : Builder).current.isHtml = true := hhtml
  rw [consume_eq_build, tokens_body hcurrent htokens, tokens_nil, build_ofRun, build, finish,
    stack_after_ofRun]
  rfl

/-! ### Sources -/

theorem consume_markup (h : Spelled e) (hslash : e.selfClosing = false)
    (hbody : e.readsBody = false) (skip : Bool) (t : Text) :
    Builder.consume { context, stack := e :: S, skipNewline := skip }
        { rest := t, body := (Token.startTag (Ascii.lower e.name) [] false).opensBody? } =
      Builder.consume { context, stack := e :: S, skipNewline := skip } { rest := t } := by
  cases hhtml : e.isHtml with
  | false =>
    have hcurrent : Builder.current { context, stack := e :: S, skipNewline := skip } = e := rfl
    exact consume_foreign (by rw [hcurrent, hhtml]) t _
  | true =>
    rw [Element.readsBody, hhtml, hslash, Bool.true_and, Bool.not_false, Bool.and_true] at hbody
    rw [lower_of_isHtml h hhtml, opensBody?_of_not hbody]

theorem not_isPlaintext_of_not_readsBody (hslash : e.selfClosing = false)
    (hbody : e.readsBody = false) : e.isPlaintext = false := by
  cases hplain : e.isPlaintext with
  | false => rfl
  | true =>
    rw [Element.isPlaintext, Element.isHtmlNamed, Bool.and_eq_true] at hplain
    rw [Element.readsBody, hplain.1, of_decide_eq_true hplain.2, hslash] at hbody
    cases hbody

theorem not_holdsRawText_of_not_readsBody (hslash : e.selfClosing = false)
    (hbody : e.readsBody = false) : e.holdsRawText = false := by
  cases hraw : e.holdsRawText with
  | false => rfl
  | true =>
    rw [Element.holdsRawText, Bool.and_eq_true] at hraw
    rw [Element.readsBody, hraw.1, hraw.2, hslash] at hbody
    cases hbody

theorem source_ofText (t : Text) : (Forest.ofText t).source = t := by
  unfold Forest.ofText
  split
  · next ht => exact ht.symm
  · exact List.append_nil t

theorem textRead_eq_nil {t : Text} : textRead e t = [] ↔ t = [] := by
  unfold textRead
  split
  · rfl
  · refine ⟨fun h => ?_, fun h => by rw [h, Reference.decode_nil]⟩
    by_cases ht : t = []
    · exact ht
    · exact absurd h (Reference.decode_ne_nil ht)

theorem reread_ofText (t after : Text) (events : List Event) :
    (Forest.ofText t).reread context (e :: S) after events =
      Event.ofText (textRead e t) ++ events := by
  unfold Forest.ofText Event.ofText
  by_cases ht : t = []
  · rw [if_pos ht, if_pos (textRead_eq_nil.2 ht)]
    rfl
  · rw [if_neg ht, if_neg fun h => ht (textRead_eq_nil.1 h)]
    rfl

/-- An element that nothing closes swallows all that follows. -/
theorem consume_plaintextElement (hcontext : context.name ∉ kinNames) {S : List Element}
    {e : Element} (he : Fits context S e) (hslash : e.selfClosing = false)
    (hplain : e.isPlaintext = true) (children rest : Forest) (after : Text) (events : List Event) :
    Builder.consume { context, stack := S }
        { rest := (Forest.element e children rest).source ++ after } =
      (Forest.element e children rest).reread context S after events := by
  obtain ⟨hhtml, hname⟩ := Bool.and_eq_true_iff.1 hplain
  replace hname : e.name = plaintextName := of_decide_eq_true hname
  have hvoid : e.isVoid = false := by
    rw [Element.isVoid, hname, hhtml]
    decide
  have hdrops : dropsLeadingNewline e.name = false := by
    rw [hname]
    decide
  have hopens : (Token.startTag (Ascii.lower e.name) [] false).opensBody? =
      some plaintextName := by
    rw [lower_of_isHtml he.spelled hhtml, hname]
    rfl
  have htext : closing e children.source ++ (rest.source ++ after) =
      children.source ++ endTagText e.name ++ rest.source ++ after := by
    rw [closing_eq hvoid, restored, hdrops, Bool.and_false, Bool.false_and]
    simp
  rw [Forest.source, List.append_assoc, elementText_append, consume_startTag hcontext he hslash,
    hvoid, if_neg Bool.false_ne_true, hopens, htext, hdrops, Bool.and_false,
    consume_plaintext hhtml, Forest.reread, hplain, if_pos rfl]

/-- **The source of a legible forest is read as the forest**, whatever follows it, as long as that
starts with no text. -/
theorem consume_source (hcontext : context.name ∉ kinNames) {S : List Element} {G : Forest}
    (h : Legible context S G) (hraw : (S.headD context).holdsRawText = false) {after : Text}
    (hafter : Opens after) :
    Builder.consume { context, stack := S } { rest := G.source ++ after } =
      G.reread context S after (Builder.consume { context, stack := S } { rest := after }) := by
  -- What follows is general: the children of an element are read in front of its end tag.
  induction h generalizing after with
  | nil => rfl
  | @text S t rest ht hbracket hnewline hnext hrest ih =>
    have hrun : Builder.consume { context, stack := S } { rest := t ++ (rest.source ++ after) } =
        _ := consume_run ht hbracket (opens_source hrest hnext hafter) false
    rw [Forest.source, List.append_assoc, hrun, if_neg Bool.false_ne_true,
      ofText_of_ne_nil (Reference.decode_ne_nil ht), ih hraw hafter, Forest.reread, textRead, hraw]
    rfl
  | @comment S t rest ht hrest ih =>
    have hread := Scanner.pull_token (Lexeme.read_comment ht (rest.source ++ after))
    rw [Forest.source, List.append_assoc, commentText_append, consume_token _ hread, Forest.reread,
      ← ih hraw hafter]
    rfl
  | @element S e children rest he hslash hbody hvoid hchildren hrest ihc ih =>
    rw [Forest.source, List.append_assoc, elementText_append, consume_startTag hcontext he hslash,
      Forest.reread, not_isPlaintext_of_not_readsBody hslash hbody, if_neg Bool.false_ne_true]
    cases hvoid' : e.isVoid with
    | true =>
      rw [hvoid hvoid', Forest.source, closing_void hvoid', List.nil_append, ih hraw hafter]
      rfl
    | false =>
      have htext : closing e children.source ++ (rest.source ++ after) =
          restored e children.source ++ (children.source ++
            (endTagText e.name ++ rest.source ++ after)) := by
        rw [closing_eq hvoid']
        simp
      have hopens : Opens (endTagText e.name ++ rest.source ++ after) := by
        rw [List.append_assoc]
        exact opens_endTagText he.spelled.isName _
      have hcontents := ihc (not_holdsRawText_of_not_readsBody hslash hbody) hopens
      rw [if_neg Bool.false_ne_true, if_neg Bool.false_ne_true, htext,
        consume_markup he.spelled hslash hbody, consume_restored hchildren hopens, hcontents,
        List.append_assoc (endTagText e.name), consume_endTag he hvoid', ih hraw hafter]
  | @body S e t rest he hslash hbody hplain hc hescaped hrest ih =>
    obtain ⟨hhtml, hname⟩ := names_of_readsBody hbody
    have hvoid : e.isVoid = false := not_isVoid_of_readsBody hbody
    have hopens : (Token.startTag e.name [] false).opensBody? = some e.name := if_pos hname
    have htext : closing e t ++ (rest.source ++ after) =
        restored e t ++ (t ++ (endTagText e.name ++ (rest.source ++ after))) := by
      rw [closing_eq hvoid]
      simp
    rw [Forest.source, List.append_assoc, elementText_append, consume_startTag hcontext he hslash,
      Forest.reread, hplain, hvoid, if_neg Bool.false_ne_true, if_neg Bool.false_ne_true,
      if_neg Bool.false_ne_true, lower_of_isHtml he.spelled hhtml, hopens, source_ofText, htext,
      consume_body he hbody hplain hc hescaped, reread_ofText, ih hraw hafter]
  | plaintext he hslash hplain => exact consume_plaintextElement hcontext he hslash hplain _ _ _ _

end Builder

end Stencil.Html
