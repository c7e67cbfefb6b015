import Stencil.Html.Builder

/-!
# Implied end tags

A start tag may end an open paragraph and an open element of its own kind. `Kin` says which open
element that is, and `Settled` that there is none: the start tag of a name closes nothing.

Closing is idempotent (`settled_settle`), because every open HTML element was settled when it was
opened: `AllSettled` says so of all open elements, each with those around it, and `Ordered` that
their contents are HTML besides. What a start tag finds to close is of its own kind or a paragraph,
so what lies under it is settled for the start tag too.
-/

namespace Stencil.Html

/-- Which open HTML element is closed by a start tag. -/
inductive Kin where
  | none
  /-- The innermost one, if it has one of the names. -/
  | innermost (names : List Text)
  /-- The nearest one in scope with one of the names. -/
  | nearest (scope : Scope) (names : List Text)
  deriving DecidableEq

namespace Kin

def names : Kin → List Text
  | .none => []
  | .innermost names => names
  | .nearest _ names => names

/-- How many of the open elements are closed. -/
def depth? : Kin → List Element → Option Nat
  | .none, _ => Option.none
  | .innermost _, [] => Option.none
  | .innermost names, e :: _ =>
    if e.isHtml && Builder.amongst names e then some 1 else Option.none
  | .nearest scope names, S => scope.depth? (Builder.amongst names) S

def close (k : Kin) (S : List Element) : List Element := S.drop ((k.depth? S).getD 0)

end Kin

theorem Scope.eq_of_depth? {s : Scope} {matching : Element → Bool} {S : List Element} {n : Nat}
    (h : s.depth? matching S = some n) :
    ∃ U e, S = U ++ e :: S.drop n ∧ n = U.length + 1 ∧ e.isHtml = true ∧ matching e = true := by
  induction S generalizing n with
  | nil => cases h
  | cons e S ih =>
    unfold depth? at h
    split at h
    · next he =>
      cases h
      rw [Bool.and_eq_true] at he
      exact ⟨[], e, rfl, rfl, he.1, he.2⟩
    · split at h
      · cases h
      · obtain ⟨k, hk, rfl⟩ := Option.map_eq_some_iff.1 h
        obtain ⟨U, d, hS, rfl, hd⟩ := ih hk
        exact ⟨e :: U, d, by rw [List.drop_succ_cons, List.cons_append, ← hS], rfl, hd⟩

theorem Scope.depth?_map (s : Scope) {f : Element → Element}
    (hf : ∀ e, (f e).name = e.name ∧ (f e).ns = e.ns) (names : List Text) (S : List Element) :
    s.depth? (Builder.amongst names) (S.map f) = s.depth? (Builder.amongst names) S := by
  have hhtml (e : Element) : (f e).isHtml = e.isHtml := by rw [Element.isHtml, (hf e).2]; rfl
  have hends (e : Element) : s.endsAt (f e) = s.endsAt e := by
    unfold endsAt Element.isIntegrationPoint
    rw [hhtml, (hf e).1, (hf e).2]
  have hnames (e : Element) : Builder.amongst names (f e) = Builder.amongst names e := by
    rw [Builder.amongst, (hf e).1]
    rfl
  induction S with
  | nil => rfl
  | cons e S ih => rw [List.map_cons, depth?, depth?, hhtml, hends, hnames, ih]

namespace Kin

/-- What is closed ends with an HTML element of the kind. -/
theorem eq_of_depth? {k : Kin} {S : List Element} {n : Nat} (h : k.depth? S = some n) :
    ∃ U e, S = U ++ e :: k.close S ∧ n = U.length + 1 ∧ e.isHtml = true ∧ e.name ∈ k.names := by
  rw [close, h, Option.getD_some]
  cases k with
  | none => cases h
  | innermost names =>
    cases S with
    | nil => cases h
    | cons e S =>
      rw [depth?] at h
      split at h
      · next he =>
        cases h
        rw [Bool.and_eq_true] at he
        exact ⟨[], e, rfl, rfl, he.1, of_decide_eq_true he.2⟩
      · cases h
  | nearest scope names =>
    obtain ⟨U, e, hS, hn, he, hname⟩ := Scope.eq_of_depth? h
    exact ⟨U, e, hS, hn, he, of_decide_eq_true hname⟩

theorem close_of_none {k : Kin} {S : List Element} (h : k.depth? S = Option.none) :
    k.close S = S := by
  rw [close, h]
  rfl

/-- What is closed depends on the names and the vocabularies of the open elements only. -/
theorem depth?_map (k : Kin) {f : Element → Element}
    (hf : ∀ e, (f e).name = e.name ∧ (f e).ns = e.ns) (S : List Element) :
    k.depth? (S.map f) = k.depth? S := by
  cases k with
  | none => rfl
  | innermost names =>
    cases S with
    | nil => rfl
    | cons e S =>
      have hhtml : (f e).isHtml = e.isHtml := by rw [Element.isHtml, (hf e).2]; rfl
      rw [List.map_cons, depth?, depth?, hhtml, Builder.amongst, (hf e).1]
      rfl
  | nearest scope names => exact Scope.depth?_map scope hf names S

end Kin

namespace Builder

/-! ### What a start tag closes -/

def paragraphName : Text := "p".toList

/-- The open paragraph that a start tag ends. -/
def paragraphKin (name : Text) : Kin :=
  if closesParagraph name || name ∈ listItemNames then .nearest .button [paragraphName] else .none

/-- The open element of the same kind that a start tag ends. -/
def siblingKin (name : Text) : Kin :=
  if isHeading name then .innermost headingNames
  else if name = "li".toList then .nearest .listItem [name]
  else if name ∈ definitionNames then .nearest .general definitionNames
  else if name ∈ optionNames then .innermost ["option".toList]
  else if name = "tr".toList then .nearest .table [name]
  else if name ∈ cellNames then .nearest .table cellNames
  else if name = "a".toList then .nearest .general [name]
  else .none

/-- The names whose start tags end an element of the same kind. -/
def kinNames : List Text :=
  headingNames ++ ["li", "dd", "dt", "option", "optgroup", "tr", "td", "th", "a"].map String.toList

theorem siblingKin_of_not_mem {name : Text} (h : name ∉ kinNames) : siblingKin name = .none := by
  have hne : ∀ n ∈ kinNames, name ≠ n := by
    rintro n hn rfl
    exact h hn
  have hheading : isHeading name = false := decide_eq_false fun hh => h (List.mem_append_left _ hh)
  have hdefinition : name ∉ definitionNames := fun hd =>
    h (List.mem_append_right _ ((by decide : ∀ n ∈ definitionNames, n ∈ _) name hd))
  have hoption : name ∉ optionNames := fun hd =>
    h (List.mem_append_right _ ((by decide : ∀ n ∈ optionNames, n ∈ _) name hd))
  have hcell : name ∉ cellNames := fun hd =>
    h (List.mem_append_right _ ((by decide : ∀ n ∈ cellNames, n ∈ _) name hd))
  rw [siblingKin, if_neg (by simp [hheading]), if_neg (hne _ (by decide)), if_neg hdefinition,
    if_neg hoption, if_neg (hne _ (by decide)), if_neg hcell, if_neg (hne _ (by decide))]

/-- An element that a start tag finds to close ends what the start tag ends. -/
theorem kin_of_mem {name n : Text} (h : n ∈ (siblingKin name).names) :
    siblingKin n = siblingKin name ∧ paragraphKin n = paragraphKin name := by
  by_cases hname : name ∈ kinNames
  · exact (by decide +kernel : ∀ name ∈ kinNames, ∀ n ∈ (siblingKin name).names,
      siblingKin n = siblingKin name ∧ paragraphKin n = paragraphKin name) name hname n h
  · rw [siblingKin_of_not_mem hname] at h
    cases h

theorem paragraphKin_of_mem {name n : Text} (h : n ∈ (paragraphKin name).names) :
    paragraphKin n = paragraphKin name := by
  unfold paragraphKin at h
  split at h
  · next hname =>
    obtain rfl : n = paragraphName := by simpa [Kin.names] using h
    rw [paragraphKin, paragraphKin, if_pos hname]
    rfl
  · cases h

/-- Whether the start tag of a name closes none of the open elements. -/
def Settled (S : List Element) (name : Text) : Prop :=
  (paragraphKin name).depth? S = none ∧ (siblingKin name).depth? S = none

instance (S : List Element) (name : Text) : Decidable (Settled S name) :=
  inferInstanceAs (Decidable (_ ∧ _))

theorem settled_map {f : Element → Element} (hf : ∀ e, (f e).name = e.name ∧ (f e).ns = e.ns)
    {S : List Element} {name : Text} : Settled (S.map f) name ↔ Settled S name := by
  rw [Settled, Settled, Kin.depth?_map _ hf, Kin.depth?_map _ hf]

/-- The elements that stay open after the implied end tags of a start tag. -/
def settle (name : Text) (S : List Element) : List Element :=
  (siblingKin name).close ((paragraphKin name).close S)

/-- Every open HTML element is settled: its start tag closes none of those around it. -/
def AllSettled : List Element → Prop
  | [] => True
  | e :: S => (e.isHtml = true → Settled S e.name) ∧ AllSettled S

theorem allSettled_of_append {U S : List Element} (h : AllSettled (U ++ S)) : AllSettled S := by
  induction U with
  | nil => exact h
  | cons e U ih => exact ih h.2

theorem allSettled_drop {S : List Element} (h : AllSettled S) (n : Nat) :
    AllSettled (S.drop n) := by
  rw [← List.take_append_drop n S] at h
  exact allSettled_of_append h

/-- Closing finds nothing of the kind, or leaves what is settled for an element of the kind. -/
theorem close_settled {k : Kin} {S : List Element} (h : AllSettled S) :
    (k.depth? S = none ∧ k.close S = S) ∨ ∃ n ∈ k.names, Settled (k.close S) n := by
  cases hk : k.depth? S with
  | none => exact .inl ⟨rfl, Kin.close_of_none hk⟩
  | some n =>
    obtain ⟨U, e, hS, -, he, hname⟩ := Kin.eq_of_depth? hk
    rw [hS] at h
    exact .inr ⟨e.name, hname, (allSettled_of_append h).1 he⟩

/-- **After the implied end tags of a start tag there is nothing left for it to close.** -/
theorem settled_settle (name : Text) {S : List Element} (h : AllSettled S) :
    Settled (settle name S) name := by
  have hinner : AllSettled ((paragraphKin name).close S) := allSettled_drop h _
  rcases close_settled (k := siblingKin name) hinner with ⟨hnone, heq⟩ | ⟨n, hn, hsettled⟩
  · rw [settle, heq]
    refine ⟨?_, hnone⟩
    rcases close_settled (k := paragraphKin name) h with ⟨hnone, heq⟩ | ⟨n, hn, hsettled⟩
    · rw [heq]
      exact hnone
    · have hnone := hsettled.1
      rwa [paragraphKin_of_mem hn] at hnone
  · obtain ⟨hkin, hkin'⟩ := kin_of_mem hn
    rw [Settled, hkin, hkin'] at hsettled
    exact hsettled

/-! ### The order of the open elements -/

/-- What holds of an open HTML element and those around it: their contents are HTML, and the start
tag of the element closed none of them. -/
def Sits (context : Element) (S : List Element) (e : Element) : Prop :=
  e.isHtml = true → (S.headD context).holdsHtml = true ∧ Settled S e.name

/-- Every open HTML element is where it sits. -/
def Ordered (context : Element) : List Element → Prop
  | [] => True
  | e :: S => Sits context S e ∧ Ordered context S

theorem ordered_of_append {context : Element} {U S : List Element}
    (h : Ordered context (U ++ S)) : Ordered context S := by
  induction U with
  | nil => exact h
  | cons e U ih => exact ih h.2

theorem ordered_drop {context : Element} {S : List Element} (h : Ordered context S) (n : Nat) :
    Ordered context (S.drop n) := by
  rw [← List.take_append_drop n S] at h
  exact ordered_of_append h

variable {context : Element} {S : List Element}

theorem allSettled_of_ordered (h : Ordered context S) : AllSettled S := by
  induction S with
  | nil => exact trivial
  | cons e S ih => exact ⟨fun he => (h.1 he).2, ih h.2⟩

theorem holdsHtml_close (k : Kin) (h : Ordered context S)
    (hcurrent : (S.headD context).holdsHtml = true) :
    ((k.close S).headD context).holdsHtml = true := by
  cases hk : k.depth? S with
  | none =>
    rw [Kin.close_of_none hk]
    exact hcurrent
  | some n =>
    obtain ⟨U, e, hS, -, he, -⟩ := Kin.eq_of_depth? hk
    rw [hS] at h
    exact ((ordered_of_append h).1 he).1

/-- Implied end tags leave the open elements settled and in order, and contents that are HTML. -/
theorem settled_after (name : Text) (h : Ordered context S)
    (hcurrent : (S.headD context).holdsHtml = true) :
    Settled (settle name S) name ∧ Ordered context (settle name S) ∧
      ((settle name S).headD context).holdsHtml = true :=
  have hparagraph := ordered_drop h _
  ⟨settled_settle name (allSettled_of_ordered h), ordered_drop hparagraph _,
    holdsHtml_close _ hparagraph (holdsHtml_close (paragraphKin name) h hcurrent)⟩

end Builder

end Stencil.Html
