import Stencil.Proofs.Html.Steps

/-!
# Where an element fits

`Fits` says that the start tag of an element, read where the element stands, would open just that
element: its names are spelled as a start tag is read (`Spelled`), and the place is one that the
start tag leaves as it is (`Placed`). `startTag_of_fits` is the step, and `fits_of_inserted` says
that whatever a start tag inserts fits where it does.
-/

namespace Stencil.Html

namespace Tag

theorem isName_of_lower {name : Text} (h : IsName (Ascii.lower name)) : IsName name := by
  obtain ⟨d, ds, he, hd, hds⟩ := h
  cases name with
  | nil => cases he
  | cons c cs =>
    obtain ⟨rfl, rfl⟩ := List.cons.inj he
    refine ⟨c, cs, rfl, Ascii.isAlpha_of_toLower hd, fun e hmem => ?_⟩
    rw [← endsName_toLower]
    exact hds _ (List.mem_map_of_mem hmem)

theorem isAttributeName_of_lower {name : Text} (h : IsAttributeName (Ascii.lower name)) :
    IsAttributeName name := by
  obtain ⟨d, ds, he, hd, hds⟩ := h
  cases name with
  | nil => cases he
  | cons c cs =>
    obtain ⟨rfl, rfl⟩ := List.cons.inj he
    rw [endsName_toLower] at hd
    refine ⟨c, cs, rfl, hd, fun e hmem => ?_⟩
    rw [← inAttributeName_toLower]
    exact hds _ (List.mem_map_of_mem hmem)

end Tag

theorem lower_restoreCase (spellings : List Text) {name : Text} (h : Ascii.lower name = name) :
    Ascii.lower (restoreCase spellings name) = name := by
  unfold restoreCase
  cases hfind : spellings.find? fun s => Ascii.lower s = name with
  | none => exact h
  | some s => simpa using List.find?_some hfind

/-! ## Spelling -/

def spell (ns : Namespace) (name : Text) : Text :=
  if ns = .svg then restoreCase svgElementNames name else name

def spellAttribute (ns : Namespace) (name : Text) : Text :=
  if ns = .svg then restoreCase svgAttributeNames name else name

theorem lower_spell (ns : Namespace) {name : Text} (h : Ascii.lower name = name) :
    Ascii.lower (spell ns name) = name := by
  unfold spell
  split
  · exact lower_restoreCase _ h
  · exact h

theorem lower_spellAttribute (ns : Namespace) {name : Text} (h : Ascii.lower name = name) :
    Ascii.lower (spellAttribute ns name) = name := by
  unfold spellAttribute
  split
  · exact lower_restoreCase _ h
  · exact h

theorem map_names (as : Attributes) (f g : Text → Text) :
    (as.map fun (n, v) => (f n, v)).map (fun (n, v) => (g n, v)) =
      as.map fun (n, v) => (g (f n), v) := by
  rw [List.map_map]
  rfl

theorem map_names_eq_self {as : Attributes} {f : Text → Text} (h : ∀ a ∈ as, f a.1 = a.1) :
    as.map (fun (n, v) => (f n, v)) = as := by
  refine (List.map_congr_left fun a ha => ?_).trans (List.map_id _)
  exact Prod.ext (h a ha) rfl

/-- The attributes of the start tag of an element. -/
def Element.tagAttributes (e : Element) : Attributes :=
  e.attributes.map fun (n, v) => (Ascii.lower n, v)

/-- Whether the names of an element are spelled as its vocabulary spells them, and can be read. -/
structure Spelled (e : Element) : Prop where
  isName : Tag.IsName e.name
  name : e.name = spell e.ns (Ascii.lower e.name)
  areNames : ∀ a ∈ e.attributes, Tag.IsAttributeName a.1
  names : ∀ a ∈ e.attributes, a.1 = spellAttribute e.ns (Ascii.lower a.1)
  distinct : (e.attributes.map fun a => Ascii.lower a.1).Nodup

namespace Builder

theorem foreign_eq (name : Text) (ns : Namespace) (attributes : Attributes) (selfClosing : Bool) :
    foreign name ns attributes selfClosing =
      { name := spell ns name, ns, selfClosing
        attributes := attributes.map fun (n, v) => (spellAttribute ns n, v) } := by
  unfold foreign spell spellAttribute
  split
  · rfl
  · simp

/-- An element with its names spelled out from those of a well-formed start tag. -/
theorem spelled_of_names {name : Text} {as : List WrittenAttribute} (hname : Tag.IsName name)
    (hlower : Ascii.lower name = name) (has : Tag.AreAttributes as) (ns : Namespace)
    (selfClosing : Bool) :
    let e : Element :=
      { name := spell ns name, ns, selfClosing
        attributes := (values as).map fun (n, v) => (spellAttribute ns n, v) }
    Spelled e ∧ Ascii.lower e.name = name ∧ e.tagAttributes = values as := by
  have hspell := lower_spell ns hlower
  have hattribute : ∀ a ∈ values as, Tag.IsAttributeName a.1 ∧ Ascii.lower a.1 = a.1 := by
    intro a ha
    obtain ⟨w, hw, rfl⟩ := List.mem_map.1 ha
    exact has.names w hw
  have htag : ((values as).map fun (n, v) => (spellAttribute ns n, v)).map
      (fun (n, v) => (Ascii.lower n, v)) = values as := by
    rw [map_names]
    exact map_names_eq_self (f := fun n => Ascii.lower (spellAttribute ns n)) fun a ha =>
      lower_spellAttribute ns (hattribute a ha).2
  refine ⟨⟨?_, ?_, ?_, ?_, ?_⟩, hspell, htag⟩
  · refine Tag.isName_of_lower ?_
    rw [hspell]
    exact hname
  · rw [hspell]
  · intro a ha
    obtain ⟨b, hb, rfl⟩ := List.mem_map.1 ha
    refine Tag.isAttributeName_of_lower ?_
    rw [lower_spellAttribute ns (hattribute b hb).2]
    exact (hattribute b hb).1
  · intro a ha
    obtain ⟨b, hb, rfl⟩ := List.mem_map.1 ha
    rw [lower_spellAttribute ns (hattribute b hb).2]
  · have hfst := congrArg (List.map Prod.fst) htag
    have hvalues : (values as).map Prod.fst = as.map Prod.fst := by simp [values]
    rw [List.map_map, hvalues] at hfst
    have hlowers : ((values as).map fun (n, v) => (spellAttribute ns n, v)).map
        (fun a => Ascii.lower a.1) = as.map Prod.fst := hfst
    exact hlowers ▸ has.distinct

/-! ## Places -/

/-- Whether a start tag of an element would insert it right inside the open elements. -/
inductive Placed (context : Element) (S : List Element) (e : Element) : Prop where
  | html (hns : e.ns = .html) (hholds : (S.headD context).holdsHtml = true)
      (hname : e.name ∉ documentNames) (hsvg : e.name ≠ "svg".toList)
      (hmath : e.name ≠ "math".toList) (hsettled : Settled S e.name)
  | root (hholds : (S.headD context).holdsHtml = true)
      (hroot : e.name = "svg".toList ∧ e.ns = .svg ∨ e.name = "math".toList ∧ e.ns = .math)
  | nested (hforeign : (S.headD context).holdsHtml = false) (hns : e.ns = (S.headD context).ns)
      (hstays : breaksOut (Ascii.lower e.name) e.tagAttributes = false)

/-- Whether the start tag of an element would open just that element. -/
structure Fits (context : Element) (S : List Element) (e : Element) : Prop where
  spelled : Spelled e
  placed : Placed context S e

/-- **Whatever is inserted fits where it is**, unless it is a paragraph or a line break that an end
tag stands for in foreign content. -/
theorem fits_of_inserted {b : Builder} {t : Token} {S : List Element} {e : Element}
    (h : Inserted b t S e) (ht : t.WellFormed)
    (hrecovered : ∀ name, t = .endTag name → b.current.holdsHtml = true) :
    Fits b.context S e := by
  cases h with
  | @html name as slash S hholds hname hsvg hmath hsettled =>
    obtain ⟨hspelled, -, -⟩ := spelled_of_names ht.1 ht.2.1 ht.2.2 .html slash
    have he : ({ name, attributes := values as, selfClosing := slash } : Element) =
        { name := spell .html name, ns := .html, selfClosing := slash
          attributes := (values as).map fun (n, v) => (spellAttribute .html n, v) } := by
      simp [spell, spellAttribute]
    exact ⟨he ▸ hspelled, .html rfl hholds hname hsvg hmath hsettled⟩
  | @root name ns as slash S hholds hroot =>
    obtain ⟨hspelled, -, -⟩ := spelled_of_names ht.1 ht.2.1 ht.2.2 ns slash
    rw [foreign_eq]
    refine ⟨hspelled, .root hholds ?_⟩
    rcases hroot with ⟨rfl, rfl⟩ | ⟨rfl, rfl⟩
    · exact .inl ⟨(by decide +kernel : spell .svg "svg".toList = "svg".toList), rfl⟩
    · exact .inr ⟨rfl, rfl⟩
  | @nested name as slash hforeign hstays =>
    obtain ⟨hspelled, hlower, htag⟩ := spelled_of_names ht.1 ht.2.1 ht.2.2 b.current.ns slash
    rw [foreign_eq]
    refine ⟨hspelled, .nested hforeign rfl ?_⟩
    rw [hlower, htag]
    exact hstays
  | @recovered name hname _ hscope =>
    have hlower : Ascii.lower name = name := ht.2
    refine ⟨⟨ht.1, ?_, fun a ha => (List.not_mem_nil ha).elim,
      fun a ha => (List.not_mem_nil ha).elim, List.nodup_nil⟩, ?_⟩
    · rw [hlower]
      rfl
    · refine .html rfl (hrecovered name rfl) ?_ ?_ ?_ ?_
      · rcases hname with rfl | rfl <;> decide
      · rcases hname with rfl | rfl <;> decide
      · rcases hname with rfl | rfl <;> decide
      · rcases hname with rfl | rfl
        · refine ⟨?_, rfl⟩
          have hparagraph := hscope rfl
          rw [named_eq_amongst] at hparagraph
          exact hparagraph
        · exact ⟨rfl, rfl⟩

/-- The element that a start tag with the names of a spelled element makes. -/
theorem respell_eq {e : Element} (h : Spelled e) (hslash : e.selfClosing = false) :
    ({ name := spell e.ns (Ascii.lower e.name), ns := e.ns, selfClosing := false,
       attributes := e.tagAttributes.map fun (n, v) => (spellAttribute e.ns n, v) } : Element) =
      e := by
  have htag : e.tagAttributes.map (fun (n, v) => (spellAttribute e.ns n, v)) = e.attributes := by
    rw [Element.tagAttributes, map_names]
    exact map_names_eq_self (f := fun n => spellAttribute e.ns (Ascii.lower n)) fun a ha =>
      (h.names a ha).symm
  rw [htag, ← h.name, ← hslash]

/-- A start tag with the names of a spelled foreign element inserts that element. -/
theorem insertForeign_of_spelled {e : Element} (h : Spelled e) (hslash : e.selfClosing = false)
    (hns : e.ns ≠ .html) (S : List Element) :
    ({ stack := S } : Step).insertForeign (Ascii.lower e.name) e.ns e.tagAttributes false =
      if e.isVoid then { stack := S, events := [.leaf e] }
      else { stack := e :: S, events := [.enter e],
             skipNewline := e.isHtml && dropsLeadingNewline e.name } := by
  have hhtml : e.isHtml = false := decide_eq_false hns
  rw [insertForeign_eq, foreign_eq, respell_eq h hslash, Element.isVoid, hhtml]
  rfl

/-- **The start tag of an element that fits opens just that element.** -/
theorem startTag_of_fits {b : Builder} (hcontext : b.context.name ∉ kinNames) {e : Element}
    (h : Fits b.context b.stack e) (hslash : e.selfClosing = false) :
    b.startTag (Ascii.lower e.name) e.tagAttributes false =
      if e.isVoid then { stack := b.stack, events := [.leaf e] }
      else { stack := e :: b.stack, events := [.enter e],
             skipNewline := e.isHtml && dropsLeadingNewline e.name } := by
  have hself := respell_eq h.spelled hslash
  have hforeign (hns : e.ns ≠ .html) := insertForeign_of_spelled h.spelled hslash hns b.stack
  have hname := h.spelled.name
  cases h.placed with
  | html hns hholds hdocument hsvg hmath hsettled =>
    have hlower : Ascii.lower e.name = e.name := by
      rw [hns] at hname
      exact hname.symm
    have hparagraph : endParagraph e.name { stack := b.stack } = { stack := b.stack } := by
      rw [endParagraph_eq]
      exact Step.closeKin_of_none hsettled.1
    obtain ⟨ns, hsibling, hnone⟩ := endSibling_eq b.context e.name { stack := b.stack }
    rw [hnone hcontext hsettled.2, Step.notify_nil, Step.closeKin_of_none hsettled.2] at hsibling
    have hself' : ({ name := e.name, attributes := e.tagAttributes, selfClosing := false } :
        Element) = e := by
      rw [hns] at hself
      simpa [spell, spellAttribute, hlower] using hself
    have hhtml : e.isHtml = true := decide_eq_true hns
    have hcurrent : b.current.holdsHtml = true := hholds
    unfold startTag
    rw [if_pos hcurrent, hlower, htmlStartTag, if_neg hdocument, if_neg hsvg, if_neg hmath,
      hparagraph, hsibling, Step.insertHtml, hself', Element.isVoid, hhtml]
    simp only [Bool.false_and, Bool.or_false, Bool.true_and]
    rfl
  | root hholds hroot =>
    have hcurrent : b.current.holdsHtml = true := hholds
    unfold startTag
    rw [if_pos hcurrent]
    rcases hroot with ⟨hroot, hns⟩ | ⟨hroot, hns⟩
    · have hinsert := hforeign (by rw [hns]; decide)
      have hlower : Ascii.lower e.name = "svg".toList := by rw [hroot]; rfl
      rw [hlower, hns] at hinsert
      rw [hlower, htmlStartTag, if_neg (by decide), if_pos rfl]
      exact hinsert
    · have hinsert := hforeign (by rw [hns]; decide)
      have hlower : Ascii.lower e.name = "math".toList := by rw [hroot]; rfl
      rw [hlower, hns] at hinsert
      rw [hlower, htmlStartTag, if_neg (by decide), if_neg (by decide), if_pos rfl]
      exact hinsert
  | nested hholds hns hstays =>
    have hcurrent : b.current.holdsHtml = false := hholds
    have hinsert := hforeign (by rw [hns]; exact ns_of_not_holdsHtml hholds)
    have hns' : b.current.ns = e.ns := hns.symm
    unfold startTag
    rw [if_neg (by simp [hcurrent]), if_neg (by simp [hstays]), hns']
    exact hinsert

end Builder

end Stencil.Html
