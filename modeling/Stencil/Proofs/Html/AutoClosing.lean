import Stencil.Proofs.Html.Trail

/-!
# Elements that end one another

Start tags end open elements so that some elements never stand inside others of their kind. `Apart`
says of an open HTML element what it does not stand in, by its name: no paragraph up to the nearest
button, no list item up to the nearest list, and so on. `apart_after` says that every open HTML
element stands apart, whatever the tokens and the context are: each was settled when it was opened,
and since then only elements inside it have been opened or closed (`allSettled_push`).
-/

namespace Stencil.Html.Builder

/-! ## A step keeps the open elements settled -/

section Step

variable {s : Step}

theorem allSettled_close (h : AllSettled s.stack) (n : Nat) : AllSettled (s.close n).stack :=
  allSettled_drop h n

theorem allSettled_insertForeign (h : AllSettled s.stack) {ns : Namespace} (hns : ns ≠ .html)
    (name : Text) (as : Attributes) (slash : Bool) :
    AllSettled (s.insertForeign name ns as slash).stack := by
  rw [insertForeign_eq]
  split
  · exact h
  · refine ⟨fun hhtml => ?_, h⟩
    simp only [Element.isHtml, ns_foreign, decide_eq_true_eq] at hhtml
    exact absurd hhtml hns

theorem allSettled_insertHtml (h : AllSettled s.stack) (context : Element) (name : Text)
    (as : Attributes) (slash : Bool) :
    AllSettled
      ((endSibling context name (endParagraph name s)).insertHtml name as slash).stack := by
  have hsettled : Settled (settle name s.stack) name := settled_settle name h
  have hrest : AllSettled (settle name s.stack) := allSettled_drop (allSettled_drop h _) _
  rw [← stack_endTags context] at hsettled hrest
  unfold Step.insertHtml
  split
  · exact hrest
  · exact ⟨fun _ => hsettled, hrest⟩

theorem allSettled_htmlStartTag (h : AllSettled s.stack) (context : Element) (name : Text)
    (as : Attributes) (slash : Bool) :
    AllSettled (htmlStartTag context name as slash s).stack := by
  unfold htmlStartTag
  split
  · exact h
  · split
    · exact allSettled_insertForeign h (by decide) _ _ _
    · split
      · exact allSettled_insertForeign h (by decide) _ _ _
      · exact allSettled_insertHtml h context name as slash

end Step

theorem allSettled_startTag (b : Builder) (h : AllSettled b.stack) (name : Text) (as : Attributes)
    (slash : Bool) : AllSettled (b.startTag name as slash).stack := by
  unfold startTag
  split
  · exact allSettled_htmlStartTag h _ _ _ _
  · next hholds =>
    split
    · exact allSettled_htmlStartTag (allSettled_close h _) _ _ _ _
    · exact allSettled_insertForeign h (ns_of_not_holdsHtml (by simpa using hholds)) _ _ _

theorem allSettled_endTag (b : Builder) (h : AllSettled b.stack) (name : Text) :
    AllSettled (b.endTag name).stack := by
  rcases endTag_cases b name with ⟨ns, n, hclose⟩ | ⟨-, notice, hleaf⟩
  · rw [hclose]
    exact allSettled_drop h n
  · rw [hleaf]
    exact h

theorem allSettled_push {b : Builder} (h : AllSettled b.stack) (t : Token) :
    AllSettled (b.push t).1.stack := by
  cases t with
  | startTag name as slash => exact allSettled_startTag b h name _ slash
  | endTag name => exact allSettled_endTag b h name
  | doctype c => exact h
  | comment c => exact h
  | text c => exact h

theorem allSettled_foldl {b : Builder} (h : AllSettled b.stack) (ts : List Token) :
    AllSettled (b.after ts).stack := by
  induction ts generalizing b with
  | nil => exact h
  | cons t ts ih => exact ih (allSettled_push h t)

/-! ## What an element does not stand in -/

/-- What an open HTML element of a name does not stand in, among the open elements around it. -/
structure Apart (S : List Element) (name : Text) : Prop where
  paragraph : closesParagraph name = true ∨ name ∈ listItemNames →
    Scope.button.holds (named "p".toList) S = false
  listItem : name = "li".toList → Scope.listItem.holds (named "li".toList) S = false
  definition : name ∈ definitionNames → Scope.general.holds (amongst definitionNames) S = false
  anchor : name = "a".toList → Scope.general.holds (named "a".toList) S = false
  row : name = "tr".toList → Scope.table.holds (named "tr".toList) S = false
  cell : name ∈ cellNames → Scope.table.holds (amongst cellNames) S = false
  heading : isHeading name = true → ∀ e ∈ S.head?, (e.isHtml && isHeading e.name) = false
  option : name ∈ optionNames → ∀ e ∈ S.head?, e.isHtmlNamed "option".toList = false

section Apart

variable {S : List Element} {name : Text}

theorem not_holds_of_nearest {scope : Scope} {names : List Text}
    (h : (Kin.nearest scope names).depth? S = none) : scope.holds (amongst names) S = false := by
  rw [Kin.depth?] at h
  rw [Scope.holds, h, Option.isSome_none]

theorem not_amongst_of_innermost {names : List Text} (h : (Kin.innermost names).depth? S = none)
    {e : Element} (he : e ∈ S.head?) : (e.isHtml && amongst names e) = false := by
  obtain ⟨outer, rfl⟩ : ∃ outer, S = e :: outer := List.head?_eq_some_iff.1 he
  simpa [depth?_innermost] using h

/-- Where a start tag closes nothing, its element stands apart. -/
theorem apart_of_settled (h : Settled S name) : Apart S name := by
  obtain ⟨hparagraph, hsibling⟩ := h
  refine ⟨?_, ?_, ?_, ?_, ?_, ?_, ?_, ?_⟩
  · intro hname
    have hcloses : (closesParagraph name || name ∈ listItemNames) = true := by
      simpa only [Bool.or_eq_true, decide_eq_true_eq] using hname
    rw [paragraphKin, if_pos hcloses] at hparagraph
    rw [named_eq_amongst]
    exact not_holds_of_nearest hparagraph
  · rintro rfl
    rw [named_eq_amongst]
    exact not_holds_of_nearest hsibling
  · intro hname
    have hkin : ∀ n ∈ definitionNames, siblingKin n = .nearest .general definitionNames := by decide
    rw [hkin name hname] at hsibling
    exact not_holds_of_nearest hsibling
  · rintro rfl
    rw [named_eq_amongst]
    exact not_holds_of_nearest hsibling
  · rintro rfl
    rw [named_eq_amongst]
    exact not_holds_of_nearest hsibling
  · intro hname
    have hkin : ∀ n ∈ cellNames, siblingKin n = .nearest .table cellNames := by decide
    rw [hkin name hname] at hsibling
    exact not_holds_of_nearest hsibling
  · intro hname e he
    rw [siblingKin, if_pos hname] at hsibling
    exact not_amongst_of_innermost hsibling he
  · intro hname e he
    have hkin : ∀ n ∈ optionNames, siblingKin n = .innermost ["option".toList] := by decide
    rw [hkin name hname] at hsibling
    have hnot := not_amongst_of_innermost hsibling he
    simpa only [Element.isHtmlNamed, amongst, List.mem_singleton] using hnot

end Apart

theorem settled_of_allSettled {inner S : List Element} {e : Element}
    (h : AllSettled (inner ++ e :: S)) (he : e.isHtml = true) : Settled S e.name :=
  (allSettled_of_append h).1 he

/-- **Every open HTML element stands apart**, after any tokens and in any context. -/
theorem apart_after (context : Element) (ts : List Token) {inner S : List Element} {e : Element}
    (hstack : (({ context } : Builder).after ts).stack = inner ++ e :: S) (he : e.isHtml = true) :
    Apart S e.name := by
  have hempty : AllSettled ({ context } : Builder).stack := trivial
  have hsettled := allSettled_foldl hempty ts
  rw [hstack] at hsettled
  exact apart_of_settled (settled_of_allSettled hsettled he)

/-- Paragraphs and list items, kept from one another by a button, a list and foreign content. -/
def nestedTokens : List Token :=
  let start (name : String) : Token := .startTag name.toList [] false
  [start "ul", start "li", start "p", start "button", start "p", start "svg", start "desc",
    start "li", start "b"]

/-- What is open around the last list item of `nestedTokens`. -/
def nestedAround : List Element :=
  [{ name := "desc".toList, ns := .svg }, { name := "svg".toList, ns := .svg },
    { name := "p".toList }, { name := "button".toList }, { name := "p".toList },
    { name := "li".toList }, { name := "ul".toList }]

theorem apart_after_nestedTokens :
    (({ context := { name := "div".toList } } : Builder).after nestedTokens).stack =
        [{ name := "b".toList }] ++ { name := "li".toList } :: nestedAround ∧
      Apart nestedAround "li".toList := by
  have hstack : (({ context := { name := "div".toList } } : Builder).after nestedTokens).stack =
      [{ name := "b".toList }] ++ { name := "li".toList } :: nestedAround := by
    decide +kernel
  exact ⟨hstack, apart_after _ nestedTokens hstack rfl⟩

end Stencil.Html.Builder
