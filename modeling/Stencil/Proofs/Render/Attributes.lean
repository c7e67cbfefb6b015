import Stencil.Proofs.Html.Printing
import Stencil.Proofs.Render.Runs
import Stencil.Render.Renderer

/-!
# Values in attributes

Whatever a service and a sanitizer answer, a value stays in its attribute. What a render writes for
an element is read back as the start tag of the element with just the values that were computed for
it (`head?_tokenize_element`), and a URL among them is allowed or is the replacement
(`gives_attributeValue`).
-/

namespace Stencil

namespace Html

/-- The start tag of an element as a token, without the slash. -/
def Element.startTag (e : Element) : Token :=
  .startTag e.name (e.attributes.map fun (name, value) => (name, some value)) false

theorem names_startTag (as : Attributes) :
    (as.map fun (name, value) => (name, some value)).map Prod.fst = as.map Prod.fst := by
  rw [List.map_map]
  rfl

theorem wellFormed_startTag_of_sublist {e : Element} (h : e.startTag.WellFormed) {as : Attributes}
    (has : (as.map Prod.fst).Sublist (e.attributes.map Prod.fst)) :
    ({ e with attributes := as } : Element).startTag.WellFormed := by
  obtain ⟨hname, hlower, hnames, hdistinct⟩ := h
  refine ⟨hname, hlower, ?_, ?_⟩
  · intro a ha
    have hmem : a.1 ∈ e.attributes.map Prod.fst := by
      refine has.mem ?_
      rw [← names_startTag as]
      exact List.mem_map_of_mem ha
    rw [← names_startTag e.attributes] at hmem
    obtain ⟨b, hb, hba⟩ := List.mem_map.1 hmem
    exact hba ▸ hnames b hb
  · rw [names_startTag] at hdistinct ⊢
    exact hdistinct.sublist has

/-- **An element is read back from its start tag**, whatever it contains. -/
theorem head?_tokenize_elementText {e : Element} (h : e.startTag.WellFormed) (contents : Text) :
    (tokenize (elementText e contents)).head? = some e.startTag := by
  obtain ⟨hname, hlower, has⟩ := h
  have hvalues : Builder.values (e.attributes.map fun (name, value) => (name, some value)) =
      e.attributes := by
    rw [Builder.values, List.map_map]
    exact List.map_id e.attributes
  have hwritten : Tag.writtenAttributes e.attributes =
      e.attributes.map fun (name, value) => (name, some value) := by
    have hvalued : ∀ a ∈ e.attributes.map fun (name, value) => (name, some value),
        a.2.isSome = true := by
      intro a ha
      obtain ⟨b, -, rfl⟩ := List.mem_map.1 ha
      rfl
    have hback := writtenAttributes_values has hvalued
    rwa [hvalues] at hback
  have hnames : ∀ a ∈ e.attributes, Tag.IsAttributeName a.1 := by
    intro a ha
    exact (has.names _ (List.mem_map_of_mem ha)).1
  have hread := Lexeme.read_startTag hname hnames (hwritten ▸ has.distinct)
    (closing e contents ++ [])
  rw [hlower, hwritten] at hread
  have htokens := Scanner.tokens_token (fun _ => true) 0 (Scanner.pull_token hread)
  rw [← elementText_append, List.append_nil] at htokens
  rw [show tokenize (elementText e contents) = _ from htokens]
  rfl

end Html

namespace Render.Renderer

variable {m : Type → Type} [Monad m] {Tree Frame : Type} {r : Renderer m Tree Frame}
  {e : Html.Element}

theorem element_eq (h : r.place e ≠ .directive) (t : Text) : r.element e t = (do
    let attributes ← r.attributes e
    let contents ← r.contents e t
    return Html.elementText { e with attributes } contents) :=
  if_neg h

variable [LawfulMonad m]

theorem gives_filterUrl (url : Text) :
    Gives (fun v => r.settings.url.allows v = true ∨ v = r.settings.url.blockedReplacement)
      (r.filterUrl url) := by
  have hfilter : r.settings.url.allows (r.settings.url.filter url) = true ∨
      r.settings.url.filter url = r.settings.url.blockedReplacement := by
    unfold UrlPolicy.filter
    split
    · next h => exact .inl h
    · exact .inr rfl
  unfold filterUrl Acts.filterUrl
  dsimp only
  split
  · exact (gives_of_forall (fun _ => trivial) _).bind fun _ _ => gives_pure hfilter
  · exact gives_pure hfilter

theorem gives_attributeValue (name value : Text) :
    Gives (fun v => isUrlAttribute name = true →
      r.settings.url.allows v = true ∨ v = r.settings.url.blockedReplacement)
      (r.attributeValue name value) := by
  refine (gives_of_forall (fun _ => trivial) (r.acts.fillAttribute name value)).bind fun v _ => ?_
  split
  · change Gives _ (r.filterUrl v)
    rw [← bind_pure (r.filterUrl v)]
    exact (r.gives_filterUrl v).bind fun w hw => gives_pure fun _ => hw
  · next h => exact gives_pure fun hurl => absurd hurl h

/-- What is known of the attributes that are written for an element: they have their names there, in
order and without the marker, and no URL but those allowed and the replacement. -/
structure Written (r : Renderer m Tree Frame) (e : Html.Element) (as : Html.Attributes) : Prop where
  names : as.map Prod.fst =
    (e.attributes.map Prod.fst).filter fun name => name ≠ r.settings.bodyMarker
  urls : ∀ a ∈ as, isUrlAttribute a.1 = true →
    r.settings.url.allows a.2 = true ∨ a.2 = r.settings.url.blockedReplacement

theorem gives_attributes : Gives (r.Written e) (r.attributes e) := by
  have hnames : (e.attributes.map Prod.fst).filter (fun name => name ≠ r.settings.bodyMarker) =
      (e.attributes.filter fun a => !(a.1 = r.settings.bodyMarker : Bool)).map Prod.fst := by
    rw [List.filter_map]
    exact congrArg (List.map Prod.fst) (List.filter_congr fun a _ => decide_not)
  have hvalue (a : Text × Text) : Gives (fun b : Text × Text => b.1 = a.1 ∧
      (isUrlAttribute b.1 = true →
        r.settings.url.allows b.2 = true ∨ b.2 = r.settings.url.blockedReplacement))
      (do return (a.1, ← r.attributeValue a.1 a.2) : StateT (Progress Frame) m (Text × Text)) :=
    (r.gives_attributeValue a.1 a.2).bind fun v hv => gives_pure ⟨rfl, hv⟩
  rw [attributes, Acts.attributes, ← bind_pure (List.mapM _ _)]
  exact (gives_mapM hvalue _).bind fun as has => gives_pure ⟨has.1.trans hnames.symm, has.2⟩

/-- **An element is read back with the values computed for it**, each in its attribute, and no URL
but those allowed and the replacement is among them. -/
theorem head?_tokenize_element (hplace : r.place e ≠ .directive) (h : e.startTag.WellFormed)
    (t : Text) :
    (fun written => (Html.tokenize written).head?) <$> r.element e t = (do
      let attributes ← r.attributes e
      let _ ← r.contents e t
      return some ({ e with attributes } : Html.Element).startTag) ∧
    Gives (r.Written e) (r.attributes e) := by
  refine ⟨?_, gives_attributes⟩
  rw [element_eq hplace, map_bind]
  refine gives_attributes.bind_congr fun as has => ?_
  have hsublist : (as.map Prod.fst).Sublist (e.attributes.map Prod.fst) :=
    has.names ▸ List.filter_sublist
  have hstart := Html.wellFormed_startTag_of_sublist h hsublist
  rw [map_bind]
  simp only [map_pure, Html.head?_tokenize_elementText hstart]

/-! ## In an anchor -/

/-- An anchor whose values are filled in, with a marker between them. -/
def filledAnchor : Html.Element where
  name := "a".toList
  attributes := [("href".toList, "\x7b\x7b\x7b1\x7d\x7d\x7d".toList),
    ("data-mw-wikitext".toList, []), ("title".toList, "&quot;\x7b\x7b\x7b2\x7d\x7d\x7d".toList),
    ("onclick".toList, "f(\x7b\x7b\x7b2\x7d\x7d\x7d)".toList),
    ("style".toList, "\x7b\x7b\x7b3\x7d\x7d\x7d".toList)]

/-- Arguments that hold the signs of markup. -/
def anchorRenderer : Renderer Id Template Bindings :=
  (Expander.escaping (.positional ["javascript:f()".toList, "\"><i a='&amp;quot;\u00A0'>".toList,
    "color: red; top: 0".toList])).renderer {} fun _ => pure ⟨⟩

theorem head?_tokenize_element_filledAnchor :
    anchorRenderer.place filledAnchor ≠ .directive ∧ filledAnchor.startTag.WellFormed ∧
    (Html.tokenize ((anchorRenderer.element filledAnchor "x".toList).run {}).1).head? =
      some (.startTag "a".toList
        [("href".toList, some "about:blank#NotAllowedURLProtocol".toList),
          ("title".toList, some "&quot;\"><i a='&quot;\u00A0'>".toList),
          ("onclick".toList,
            some "f(\"\\\"\\u003E\\u003Ci a='\\u0026quot;\u00A0'\\u003E\")".toList),
          ("style".toList, some "color: red; top: 0".toList)] false) := by
  have hplace : anchorRenderer.place filledAnchor ≠ .directive := by decide +kernel
  have hstart : filledAnchor.startTag.WellFormed := by decide +kernel
  have htokens := (head?_tokenize_element hplace hstart "x".toList).1
  refine ⟨hplace, hstart, (congrArg (fun run => (run.run {}).1) htokens).trans ?_⟩
  decide +kernel

end Render.Renderer

end Stencil
