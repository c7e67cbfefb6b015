import Stencil.Proofs.Html.Rewrite

/-!
# Serializing twice

HTML is written by the rewriting that escapes texts (`plainRewrite`), so what is written for a
fragment is read as the forest of the fragment, with texts that meet made one. Writing that again
gives the same text: `serialize_serialize`.
-/

namespace Stencil.Html

/-- The rewriting of HTML itself. -/
def plainRewrite : Rewrite where
  text := textIn
  fate _ := .kept
  rebuilt e := { e with selfClosing := false }

theorem not_holdsRawText_of_not_isRawText {e : Element} (h : isRawText e.name = false) :
    e.holdsRawText = false := by
  rw [Element.holdsRawText, h, Bool.and_false]

theorem not_isRawText_of_drops {name : Text} (h : dropsLeadingNewline name = true) :
    isRawText name = false := by
  have hnames : ∀ n ∈ leadingNewlineNames, isRawText n = false := by decide
  exact hnames name (of_decide_eq_true h)

theorem sound_plainRewrite : plainRewrite.Sound fun _ _ => True where
  name _ := rfl
  ns _ := rfl
  slash _ := rfl
  attributes _ := .refl _
  bracket e t h := by
    change '<' ∉ textIn e t
    rw [textIn_of_not_raw h]
    exact bracket_not_mem_escapeText t
  newline e t h := by
    rw [Bool.and_eq_true] at h
    exact ⟨t, textIn_of_not_raw
      (not_holdsRawText_of_not_isRawText (not_isRawText_of_drops h.2)) t⟩
  escapable e t _ h :=
    ⟨t, textIn_of_not_raw
      (not_holdsRawText_of_not_isRawText (Scanner.not_isRawText_of_isEscapable h)) t⟩
  body e t hbody _ hc := by
    intro hraw hname
    have hholds : e.holdsRawText = true := by
      rw [Element.holdsRawText, Element.isHtml_of_readsBody hbody, hraw]
      rfl
    change ¬Tag.Closes e.name (textIn e t)
    rw [textIn, hholds, if_pos rfl]
    exact hc hraw hname

/-- **A fragment is serialized to the source of its rewritten forest.** -/
theorem serialize_eq_source (t : Text) : serialize t =
    ((Forest.ofEvents (parse divElement t)).rewrite plainRewrite divElement).source :=
  run_rewrite plainRewrite rfl t

/-! ## Writing what was read -/

namespace Forest

/-- A forest whose source was written, as it is read: its texts are decoded. -/
def read (parent : Element) : Forest → Forest
  | .nil => .nil
  | .text t rest => .text (textRead parent t) (read parent rest)
  | .comment t rest => .comment t (read parent rest)
  | .element e children rest => .element e (read e children) (read parent rest)

end Forest

variable {context : Element}

/-- What is read of a source tells the forest that was written, if nothing in it is left open. -/
theorem remaining_reread {S : List Element} {G : Forest} (h : Legible context S G)
    (hplain : ∀ e ∈ G.elements, e.isPlaintext = false) (after : Text) {es : List Event}
    {outer : List Forest} (hes : Forest.remaining es = (.nil, outer)) :
    Forest.remaining (G.reread context S after es) = (G.read (S.headD context), outer) := by
  -- The children of an element are told in front of its end, with one more rest to follow.
  induction h generalizing after es outer with
  | nil => exact hes
  | text _ _ _ _ _ ih => rw [Forest.reread, Forest.remaining, ih hplain after hes]; rfl
  | comment _ _ ih => rw [Forest.reread, Forest.remaining, ih hplain after hes]; rfl
  | @element S e children rest _ _ _ hvoid _ _ ihc ih =>
    have hrest := ih (fun d hd => hplain d (List.mem_cons_of_mem _ (List.mem_append_right _ hd)))
      after hes
    rw [Forest.reread, hplain e List.mem_cons_self, if_neg Bool.false_ne_true]
    cases hvoid' : e.isVoid with
    | true =>
      rw [if_pos rfl, Forest.remaining, hrest, hvoid hvoid']
      rfl
    | false =>
      have hleave : Forest.remaining (.leave :: rest.reread context S after es) =
          (.nil, rest.read (S.headD context) :: outer) := by
        rw [Forest.remaining, hrest]
      have hchildren := ihc
        (fun d hd => hplain d (List.mem_cons_of_mem _ (List.mem_append_left _ hd)))
        (endTagText e.name ++ rest.source ++ after) hleave
      rw [if_neg Bool.false_ne_true, Forest.remaining, hchildren]
      rfl
  | @body S e t rest _ _ hbody _ _ _ _ ih =>
    have hrest := ih (fun d hd => hplain d (List.mem_cons_of_mem _ (List.mem_append_right _ hd)))
      after hes
    rw [Forest.reread, hplain e List.mem_cons_self, Builder.not_isVoid_of_readsBody hbody,
      if_neg Bool.false_ne_true, if_neg Bool.false_ne_true, Builder.reread_ofText]
    have hremaining : Forest.remaining (.enter e :: (Event.ofText (textRead e t) ++
        .leave :: rest.reread context S after es)) =
        (.element e (.ofText (textRead e t)) (rest.read (S.headD context)), outer) := by
      unfold Event.ofText Forest.ofText
      split <;> simp [Forest.remaining, hrest]
    rw [hremaining, Forest.read]
    unfold Forest.ofText
    by_cases ht : t = []
    · rw [if_pos ht, if_pos (Builder.textRead_eq_nil.2 ht)]
      rfl
    · rw [if_neg ht, if_neg fun h => ht (Builder.textRead_eq_nil.1 h)]
      rfl
  | plaintext _ _ h => rw [hplain _ List.mem_cons_self] at h; cases h

theorem textIn_textRead (e : Element) (u : Text) :
    textIn e (textRead e (textIn e u)) = textIn e u := by
  unfold textIn textRead
  cases e.holdsRawText with
  | true => rfl
  | false => exact congrArg escapeText (Reference.decode_escapeText u)

/-- Writing what was read of a source gives the source, if its texts were escaped. -/
theorem source_rewrite_read (G : Forest) {parent : Element}
    (h : ∀ p ∈ G.texts parent, ∃ u, p.2 = textIn p.1 u) :
    ((G.read parent).rewrite plainRewrite parent).source = G.source := by
  induction G generalizing parent with
  | nil => rfl
  | text t rest ih =>
    obtain ⟨u, hu⟩ := h (parent, t) List.mem_cons_self
    have hrest := ih fun p hp => h p (List.mem_cons_of_mem _ hp)
    rw [Forest.read, Forest.rewrite, Forest.source_consText, hrest, Forest.source]
    change textIn parent (textRead parent t) ++ rest.source = t ++ rest.source
    replace hu : t = textIn parent u := hu
    rw [hu, textIn_textRead]
  | comment t rest ih =>
    rw [Forest.read, Forest.rewrite, Forest.source, ih h, Forest.source]
  | element e children rest ihc ih =>
    have hchildren := ihc fun p hp => h p (List.mem_append_left _ hp)
    have hrest := ih fun p hp => h p (List.mem_append_right _ hp)
    rw [Forest.read, Forest.rewrite]
    change (Forest.element _ _ _).source = _
    rw [Forest.source, hchildren, hrest]
    rfl

theorem textIn_append (e : Element) (s t : Text) :
    textIn e (s ++ t) = textIn e s ++ textIn e t := by
  unfold textIn
  split
  · rfl
  · exact escapeText_append s t

theorem texts_rewrite (f : Forest) {parent parent' : Element}
    (hparent : parent'.holdsRawText = parent.holdsRawText) :
    ∀ p ∈ (f.rewrite plainRewrite parent).texts parent', ∃ u, p.2 = textIn p.1 u := by
  have hsame (t : Text) : textIn parent t = textIn parent' t := by
    rw [textIn, textIn, hparent]
  induction f generalizing parent parent' with
  | nil => exact fun p hp => (List.not_mem_nil hp).elim
  | text t rest ih =>
    have hrest := ih hparent hsame
    intro p hp
    rcases Forest.mem_texts_consText hp with hp | rfl | ⟨u, hu, rfl⟩
    · exact hrest p hp
    · exact ⟨t, hsame t⟩
    · obtain ⟨v, hv⟩ := hrest _ hu
      refine ⟨t ++ v, ?_⟩
      rw [textIn_append, ← hv, ← hsame]
      rfl
  | comment t rest ih => exact ih hparent hsame
  | element e children rest ihc ih =>
    intro p hp
    rcases List.mem_append.1 hp with hp | hp
    · exact @ihc e { e with selfClosing := false } rfl (fun _ => rfl) p hp
    · exact ih hparent hsame p hp

theorem elements_rewrite (f : Forest) (parent : Element) :
    (f.rewrite plainRewrite parent).elements = f.elements.map plainRewrite.rebuilt := by
  induction f generalizing parent with
  | nil => rfl
  | text t rest ih => rw [Forest.rewrite, Forest.elements_consText, ih]; rfl
  | comment t rest ih => exact ih parent
  | element e children rest ihc ih =>
    rw [Forest.rewrite]
    change plainRewrite.rebuilt e :: (_ ++ _) = _
    rw [ihc, ih, ← List.map_append]
    rfl

/-! ## Stability -/

/-- Whether a turn takes the start tag, with a slash, of an HTML element with a body. -/
def meetsSlashedBody : Builder × Token → Bool
  | (b, .startTag name _ true) => (isRawText name || isEscapable name) && b.current.holdsHtml
  | _ => false

/-- Whether a turn takes the end tag of a paragraph or a line break in a foreign element. -/
def endsInForeign : Builder × Token → Bool
  | (b, .endTag name) => (name = Builder.paragraphName || name = "br".toList) && !b.current.isHtml
  | _ => false

theorem slashesBody_of_not_meets {turn : Builder × Token} (h : meetsSlashedBody turn = false) :
    slashesBody turn = false := by
  obtain ⟨b, t⟩ := turn
  cases t with
  | startTag name as slash =>
    cases slash with
    | false => rfl
    | true =>
      rw [meetsSlashedBody, Bool.and_eq_false_iff] at h
      rw [slashesBody]
      rcases h with h | h
      · rw [h]
        rfl
      · rw [h, Bool.and_false]
  | doctype | endTag | comment | text => rfl

/-- An end tag inserts no element but a paragraph or a line break. -/
theorem not_isLeaf_endTag (b : Builder) {name : Text} (hp : name ≠ Builder.paragraphName)
    (hbr : name ≠ "br".toList) : (b.endTag name).events.any Event.isLeaf = false := by
  have hclose (n : Nat) :
      (({ stack := b.stack } : Step).close n).events.any Event.isLeaf = false := by
    change (List.map (fun _ => Event.leave) (b.stack.take n)).any Event.isLeaf = false
    rw [List.any_map]
    exact List.any_eq_false.2 fun _ _ => Bool.false_ne_true
  unfold Builder.endTag Builder.htmlEndTag
  dsimp only
  split
  · exact hclose _
  · split
    · rfl
    · split
      · next h => exact absurd h hp
      · split
        · exact hclose _
        · rfl

theorem recoversInForeign_of_not_ends {turn : Builder × Token} (h : endsInForeign turn = false) :
    recoversInForeign turn = false := by
  obtain ⟨b, t⟩ := turn
  cases t with
  | endTag name =>
    rw [endsInForeign, Bool.and_eq_false_iff] at h
    rw [recoversInForeign]
    rcases h with h | h
    · rw [Bool.or_eq_false_iff] at h
      rw [not_isLeaf_endTag b (of_decide_eq_false h.1) (of_decide_eq_false h.2), Bool.and_false]
    · rw [Bool.not_eq_eq_eq_not, Bool.not_false] at h
      rw [Element.holdsHtml, h]
      rfl
  | doctype | startTag | comment | text => rfl

/-- **Serialization is stable**: what a fragment is serialized to is serialized to itself, if the
parse of the fragment opens no HTML `plaintext` element, meets no start tag with a slash of an HTML
element with a body, and takes no end tag of a paragraph or a line break in a foreign element. -/
theorem serialize_serialize (x : Text)
    (hplain : ∀ e ∈ (Forest.ofEvents (parse divElement x)).elements, e.isPlaintext = false)
    (hslash : ∀ turn ∈ turns divElement x, meetsSlashedBody turn = false)
    (hends : ∀ turn ∈ turns divElement x, endsInForeign turn = false) :
    serialize (serialize x) = serialize x := by
  have hgrown := grown_steady (show divElement.holdsHtml = true from rfl) x
    (fun turn h => slashesBody_of_not_meets (hslash turn h))
    fun turn h => recoversInForeign_of_not_ends (hends turn h)
  generalize hf : Forest.ofEvents (parse divElement x) = f at *
  have hlegible : Legible divElement [] (f.rewrite plainRewrite divElement) :=
    legible_rewrite sound_plainRewrite hgrown (fun _ _ => trivial) (by decide)
  have hplain' : ∀ e ∈ (f.rewrite plainRewrite divElement).elements, e.isPlaintext = false := by
    rw [elements_rewrite]
    intro e he
    obtain ⟨d, hd, rfl⟩ := List.mem_map.1 he
    exact hplain d hd
  have hserialize : serialize x = (f.rewrite plainRewrite divElement).source := by
    rw [serialize_eq_source, hf]
  have hread : Forest.ofEvents (parse divElement (serialize x)) =
      (f.rewrite plainRewrite divElement).read divElement := by
    rw [hserialize, parse_source (by decide) (by decide) hlegible, Forest.ofEvents,
      remaining_reread hlegible hplain' [] rfl]
    rfl
  rw [serialize_eq_source, hread, source_rewrite_read _ (texts_rewrite f rfl), hserialize]

/-- A fragment with implied end tags, foreign content, a body and escapes. -/
def mixedFragment : Text := "<p>a<li>b<li>&amp;<svg><desc>e</svg><pre>\n\nc<xmp>d<".toList

theorem serialize_serialize_mixedFragment :
    (∀ e ∈ (Forest.ofEvents (parse divElement mixedFragment)).elements, e.isPlaintext = false) ∧
      (∀ turn ∈ turns divElement mixedFragment, meetsSlashedBody turn = false) ∧
        (∀ turn ∈ turns divElement mixedFragment, endsInForeign turn = false) ∧
          serialize (serialize mixedFragment) = serialize mixedFragment := by
  have hplain : ∀ e ∈ (Forest.ofEvents (parse divElement mixedFragment)).elements,
      e.isPlaintext = false := by
    decide +kernel
  have hturns : ∀ turn ∈ turns divElement mixedFragment,
      meetsSlashedBody turn = false ∧ endsInForeign turn = false := by
    decide +kernel
  have hslash := fun turn h => (hturns turn h).1
  have hends := fun turn h => (hturns turn h).2
  exact ⟨hplain, hslash, hends, serialize_serialize mixedFragment hplain hslash hends⟩

end Stencil.Html
