import Stencil.Html.Scanner
import Stencil.Proofs.Text.Case
import Stencil.Proofs.Text.Search

/-!
# Well-formed tokens

What the scanner gives can be written down and read again: names hold no sign that ends them and
are in small letters, the attribute names of a tag are distinct, and no comment holds the end of
one. `Scanner.wellFormed_of_pull` says so of every token pulled from a text.
-/

namespace Stencil.Html

namespace Tag

/-- A name that the scanner reads to its end and no further: a letter, and then no character that
ends the name of a tag. -/
def IsName (name : Text) : Prop :=
  ∃ c cs, name = c :: cs ∧ c.isAlpha = true ∧ ∀ d ∈ cs, endsName d = false

/-- The name of an attribute: an equals sign may start it, but not stand inside it. -/
def IsAttributeName (name : Text) : Prop :=
  ∃ c cs, name = c :: cs ∧ endsName c = false ∧ ∀ d ∈ cs, inAttributeName d = true

instance (name : Text) : Decidable (IsName name) :=
  match name with
  | [] => isFalse fun ⟨_, _, h, _⟩ => nomatch h
  | c :: cs =>
    have : Decidable (∀ d ∈ cs, endsName d = false) := List.decidableBAll _ cs
    decidable_of_iff (c.isAlpha = true ∧ ∀ d ∈ cs, endsName d = false)
    ⟨fun ⟨hc, hcs⟩ => ⟨c, cs, rfl, hc, hcs⟩, fun ⟨_, _, h, hc, hcs⟩ => by cases h; exact ⟨hc, hcs⟩⟩

instance (name : Text) : Decidable (IsAttributeName name) :=
  match name with
  | [] => isFalse fun ⟨_, _, h, _⟩ => nomatch h
  | c :: cs =>
    have : Decidable (∀ d ∈ cs, inAttributeName d = true) := List.decidableBAll _ cs
    decidable_of_iff (endsName c = false ∧ ∀ d ∈ cs, inAttributeName d = true)
    ⟨fun ⟨hc, hcs⟩ => ⟨c, cs, rfl, hc, hcs⟩, fun ⟨_, _, h, hc, hcs⟩ => by cases h; exact ⟨hc, hcs⟩⟩

theorem endsName_of_isAlpha {c : Char} (h : c.isAlpha = true) : endsName c = false := by
  cases hc : endsName c with
  | false => rfl
  | true =>
    simp only [endsName, Ascii.isBlank, Bool.or_eq_true, decide_eq_true_eq] at hc
    rcases hc with (((((rfl | rfl) | rfl) | rfl) | rfl) | rfl) | rfl <;> revert h <;> decide

theorem endsName_toLower (c : Char) : endsName c.toLower = endsName c :=
  Ascii.toLower_of_letters (fun _ => endsName_of_isAlpha) c

theorem inAttributeName_toLower (c : Char) : inAttributeName c.toLower = inAttributeName c := by
  have he : c.toLower = '=' ↔ c = '=' := Ascii.toLower_eq_iff (by decide)
  simp [inAttributeName, endsName_toLower, he]

theorem IsName.lower {name : Text} (h : IsName name) : IsName (Ascii.lower name) := by
  obtain ⟨c, cs, rfl, hc, hcs⟩ := h
  refine ⟨_, _, Ascii.lower_cons c cs, Ascii.isAlpha_toLower hc, ?_⟩
  intro d hd
  obtain ⟨e, he, rfl⟩ := List.mem_map.1 hd
  rw [endsName_toLower, hcs e he]

theorem IsAttributeName.lower {name : Text} (h : IsAttributeName name) :
    IsAttributeName (Ascii.lower name) := by
  obtain ⟨c, cs, rfl, hc, hcs⟩ := h
  refine ⟨_, _, Ascii.lower_cons c cs, by rw [endsName_toLower, hc], ?_⟩
  intro d hd
  obtain ⟨e, he, rfl⟩ := List.mem_map.1 hd
  rw [inAttributeName_toLower, hcs e he]

/-- Attributes with well-formed names in small letters, each name once. -/
structure AreAttributes (as : List WrittenAttribute) : Prop where
  names : ∀ a ∈ as, IsAttributeName a.1 ∧ Ascii.lower a.1 = a.1
  distinct : (as.map Prod.fst).Nodup

instance (as : List WrittenAttribute) : Decidable (AreAttributes as) :=
  decidable_of_iff ((∀ a ∈ as, IsAttributeName a.1 ∧ Ascii.lower a.1 = a.1) ∧
    (as.map Prod.fst).Nodup) ⟨fun ⟨h, hd⟩ => ⟨h, hd⟩, fun ⟨h, hd⟩ => ⟨h, hd⟩⟩

theorem AreAttributes.nil : AreAttributes [] := ⟨by simp, by simp⟩

theorem AreAttributes.addNew {as : List WrittenAttribute} (h : AreAttributes as)
    {a : WrittenAttribute} (ha : IsAttributeName a.1 ∧ Ascii.lower a.1 = a.1) :
    AreAttributes (addNew as a) := by
  unfold Tag.addNew
  split
  · exact h
  · next hnew =>
    refine ⟨?_, ?_⟩
    · intro b hb
      rcases List.mem_append.1 hb with hb | hb
      · exact h.names b hb
      · rw [List.mem_singleton.1 hb]
        exact ha
    · rw [List.map_append, List.nodup_append]
      refine ⟨h.distinct, by simp, ?_⟩
      intro x hx y hy hxy
      obtain ⟨b, hb, rfl⟩ := List.mem_map.1 hx
      simp only [List.map_cons, List.map_nil, List.mem_singleton] at hy
      exact hnew (List.any_eq_true.2 ⟨b, hb, by simp [hxy, hy]⟩)

theorem name_of_attribute? {c : Char} {t rest : Text} {a : WrittenAttribute}
    (hc : endsName c = false) (h : attribute? c t = some (a, rest)) :
    IsAttributeName a.1 ∧ Ascii.lower a.1 = a.1 := by
  obtain ⟨⟨v, r⟩, -, he⟩ := Option.map_eq_some_iff.1 h
  cases he
  refine ⟨IsAttributeName.lower ⟨c, _, rfl, hc, ?_⟩, Ascii.lower_lower _⟩
  intro d hd
  exact Text.of_mem_takeWhile hd

theorem areAttributes_of_attributes? {found as : List WrittenAttribute} {b : Bool} {t rest : Text}
    (hf : AreAttributes found) (h : attributes? found t = some (as, b, rest)) :
    AreAttributes as := by
  fun_induction attributes? found t with
  | case1 => cases h
  | case2 =>
    cases h
    exact hf
  | case3 =>
    cases h
    exact hf
  | case4 _ _ _ _ _ _ _ ih => exact ih hf h
  | case5 => cases h
  | case6 found t c cs hd hlt hgt hslash a rest' hattr hle ih =>
    have hblank : Ascii.isBlank c = false := by
      have := List.head?_dropWhile_not Ascii.isBlank t
      simpa [hd] using this
    have hc : endsName c = false := by simp [endsName, hblank, hgt, hslash]
    exact ih (hf.addNew (name_of_attribute? hc hattr)) h

end Tag

namespace Token

/-- Whether a token can be written and read again, apart from the body that may follow it. -/
def WellFormed : Token → Prop
  | .doctype _ => True
  | .startTag name attributes _ =>
    Tag.IsName name ∧ Ascii.lower name = name ∧ Tag.AreAttributes attributes
  | .endTag name => Tag.IsName name ∧ Ascii.lower name = name
  | .comment t => Text.cut? "-->".toList t = none
  | .text t => t ≠ []

instance : (t : Token) → Decidable t.WellFormed
  | .doctype _ => inferInstanceAs (Decidable True)
  | .startTag name as _ => inferInstanceAs
    (Decidable (Tag.IsName name ∧ Ascii.lower name = name ∧ Tag.AreAttributes as))
  | .endTag name => inferInstanceAs (Decidable (Tag.IsName name ∧ Ascii.lower name = name))
  | .comment t => inferInstanceAs (Decidable (Text.cut? "-->".toList t = none))
  | .text t => inferInstanceAs (Decidable (t ≠ []))

end Token

namespace Lexeme

/-- The token of a lexeme, if it is one, is well-formed. -/
def WellFormed : Lexeme → Prop
  | .token t => t.WellFormed
  | _ => True

theorem wellFormed_bogusComment (t : Text) : (bogusComment t).1.WellFormed := by
  refine Text.cut?_eq_none_of_not_mem (c := '>') (by decide) ?_
  intro h
  simpa using Text.of_mem_takeWhile h

theorem wellFormed_comment (t : Text) : (comment t).1.WellFormed := by
  unfold comment
  split
  · next content rest h => exact Text.cut?_before (by decide) h
  · next h => exact h

theorem wellFormed_declaration (t : Text) : (declaration t).1.WellFormed := by
  unfold declaration
  split
  · exact wellFormed_comment _
  · split
    · unfold doctype
      split <;> trivial
    · exact wellFormed_bogusComment t

theorem isName_takeWhile {c : Char} (hc : c.isAlpha = true) (t : Text) :
    Tag.IsName (c :: t.takeWhile fun d => !Tag.endsName d) := by
  refine ⟨c, _, rfl, hc, ?_⟩
  intro d hd
  simpa using Text.of_mem_takeWhile hd

theorem wellFormed_endTag (t : Text) : (endTag t).1.WellFormed := by
  unfold endTag
  split
  · trivial
  · split
    · next hc =>
      split
      · trivial
      · exact ⟨(isName_takeWhile hc _).lower, Ascii.lower_lower _⟩
    · split
      · trivial
      · exact wellFormed_bogusComment _

theorem wellFormed_startTag {c : Char} (hc : c.isAlpha = true) (t : Text) :
    (startTag c t).1.WellFormed := by
  unfold startTag
  split
  · next h =>
    exact ⟨(isName_takeWhile hc _).lower, Ascii.lower_lower _,
      Tag.areAttributes_of_attributes? .nil h⟩
  · trivial

theorem wellFormed_markup (t : Text) : (markup t).1.WellFormed := by
  unfold markup
  split
  · trivial
  · split
    · exact wellFormed_declaration _
    · split
      · exact wellFormed_bogusComment _
      · split
        · exact wellFormed_endTag _
        · split
          · next hc => exact wellFormed_startTag hc _
          · trivial

theorem wellFormed_read (c : Char) (cs : Text) : (read c cs).1.WellFormed := by
  unfold read
  split
  · exact wellFormed_markup cs
  · trivial

end Lexeme

/-- **Every token pulled from a text is well-formed.** -/
theorem Scanner.wellFormed_of_pull {t run rest : Text} {token : Token}
    (h : Scanner.pull t = (run, some token, rest)) : token.WellFormed := by
  fun_induction Scanner.pull t generalizing run rest with
  | case1 => cases h
  | case2 c cs hle t rest' hread hlt run' token' after hp ih =>
    rw [hp] at ih
    cases h
    exact ih rfl
  | case3 c cs hle rest' hread hlt ih => exact ih h
  | case4 c cs hle t rest' hread =>
    cases h
    have := Lexeme.wellFormed_read c cs
    rwa [hread] at this

end Stencil.Html
