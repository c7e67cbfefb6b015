import Stencil.Proofs.Template.Marks
import Stencil.Proofs.Text.Forms

/-!
# Templates of texts that are written form by form

An escape writes every character in a form of its own. If the signs of a template are written as
they are, and no form of another character has a sign (`KeepsSigns`), a text has the same marks
before and after, so it is parsed as the same template with its texts written form by form
(`parse_flatMap`). Filled in with values that are written so as well, such a template gives what the
template gives, written form by form, if the names that are looked up are written as they are
(`expand_written`).
-/

namespace Stencil.Template

/-- Whether characters are written so that the signs of a template stay what they are, and no sign
comes in. -/
structure KeepsSigns (f : Char → Text) : Prop where
  sign : ∀ c, isSign c = true → f c = [c]
  other : ∀ c, isSign c = false → Signless (f c)
  ne_nil : ∀ c, f c ≠ []

/-- The mark, written form by form. -/
def Mark.written (f : Char → Text) : Mark → List Mark
  | .char c => (f c).map .char
  | mark => [mark]

/-- The template with its texts written form by form. -/
def written (f : Char → Text) : Template → Template
  | .nil => .nil
  | .text t rest => .text (t.flatMap f) (rest.written f)
  | .slot name rest => .slot (name.written f) (rest.written f)
  | .slotOr name fallback rest => .slotOr (name.written f) (fallback.written f) (rest.written f)

/-- The open placeholder with its texts written form by form. -/
def OpenSlot.written (f : Char → Text) (s : OpenSlot) : OpenSlot where
  parts := s.parts.map (Template.written f)
  current := s.current.written f

/-- The reader with its texts written form by form. -/
def Reader.written (f : Char → Text) (r : Reader) : Reader where
  root := r.root.written f
  stack := r.stack.map (OpenSlot.written f)
  run := (r.run.reverse.flatMap f).reverse

/-- The names that are looked up when a template is filled in. Those in a fallback are looked up
only if it is taken. -/
def reachedNames (b : Bindings) : Template → List Text
  | .nil => []
  | .text _ rest => reachedNames b rest
  | .slot name rest => reachedNames b name ++ name.expand b :: reachedNames b rest
  | .slotOr name fallback rest =>
    reachedNames b name ++ name.expand b ::
      ((if (b.get? (Text.trim (name.expand b))).isSome then [] else reachedNames b fallback) ++
        reachedNames b rest)

variable {f : Char → Text} (hf : KeepsSigns f)

include hf

/-! ## Marks -/

theorem flatMap_signs {s : Text} (hs : s.all isSign = true) : s.flatMap f = s := by
  apply Text.flatMap_eq_self
  intro c hc
  exact hf.sign c (List.all_eq_true.1 hs c hc)

/-- Written form by form, a text starts with a run of one sign if it did before. -/
theorem isPrefixOf_flatMap {s : Char} (hs : isSign s = true) (n : Nat) (t : Text) :
    (List.replicate n s).isPrefixOf (t.flatMap f) = (List.replicate n s).isPrefixOf t := by
  induction n generalizing t with
  | zero => rfl
  | succ n ih =>
    cases t with
    | nil => rfl
    | cons c t =>
      rw [List.flatMap_cons, List.replicate_succ]
      by_cases hc : s = c
      · subst hc
        rw [hf.sign s hs, List.singleton_append, List.isPrefixOf_cons_cons,
          List.isPrefixOf_cons_cons, ih]
      · -- The form of another character starts with another character.
        obtain ⟨d, ds, hform⟩ := List.exists_cons_of_ne_nil (hf.ne_nil c)
        have hd : s ≠ d := by
          intro hsd
          cases hsign : isSign c with
          | true =>
            rw [hf.sign c hsign] at hform
            exact hc (hsd.trans (List.cons.inj hform).1.symm)
          | false =>
            have hplain := hf.other c hsign d (by simp [hform])
            rw [← hsd, hs] at hplain
            cases hplain
        rw [hform, List.cons_append, List.isPrefixOf_cons_cons, List.isPrefixOf_cons_cons,
          beq_eq_false_iff_ne.2 hc, beq_eq_false_iff_ne.2 hd, Bool.false_and, Bool.false_and]

theorem head?_flatMap {s : Char} (hs : isSign s = true) {t : Text} (ht : t.head? ≠ some s) :
    (t.flatMap f).head? ≠ some s := by
  have hstarts (u : Text) : (List.replicate 1 s).isPrefixOf u = true ↔ u.head? = some s := by
    rw [List.isPrefixOf_iff_prefix, List.head?_eq_some_iff]
    exact exists_congr fun v => eq_comm
  rw [Ne, ← hstarts, isPrefixOf_flatMap hf hs, hstarts]
  exact ht

theorem isPrefixOf_cons_flatMap {s : Char} (hs : isSign s = true) (n : Nat) (cs : Text) :
    (List.replicate n s).isPrefixOf (s :: cs.flatMap f) =
      (List.replicate n s).isPrefixOf (s :: cs) := by
  have hrun := isPrefixOf_flatMap hf hs n (s :: cs)
  rw [List.flatMap_cons, hf.sign s hs] at hrun
  exact hrun

/-- An opening brace that is a character still is one. -/
theorem marks_brace_flatMap {cs : Text}
    (h : ¬(['\x7b', '\x7b'].isPrefixOf cs && cs[2]? ≠ some '\x7b') = true) :
    marks ('\x7b' :: cs.flatMap f) = .char '\x7b' :: marks (cs.flatMap f) := by
  cases hthree : opening.isPrefixOf ('\x7b' :: cs) with
  | false =>
    apply marks_few
    exact (isPrefixOf_cons_flatMap hf (by decide) 3 cs).trans hthree
  | true =>
    obtain ⟨v, hv⟩ := List.isPrefixOf_iff_prefix.1 hthree
    obtain rfl : '\x7b' :: '\x7b' :: v = cs := (List.cons.inj hv).2
    have hfourth : v.head? = some '\x7b' := by simpa [List.head?_eq_getElem?] using h
    obtain ⟨v, rfl⟩ := List.head?_eq_some_iff.1 hfourth
    have hopen : f '\x7b' = ['\x7b'] := hf.sign _ (by decide)
    simpa [hopen] using marks_more (v.flatMap f)

/-- **Written form by form, a text has the marks it had**, written form by form. -/
theorem marks_flatMap (t : Text) : marks (t.flatMap f) = (marks t).flatMap (Mark.written f) := by
  have hopen : f '\x7b' = ['\x7b'] := hf.sign _ (by decide)
  have hclose : f '\x7d' = ['\x7d'] := hf.sign _ (by decide)
  have hbar : f '|' = ['|'] := hf.sign _ (by decide)
  fun_induction marks t with
  | case1 => rw [List.flatMap_nil, marks, List.flatMap_nil]
  | case2 c cs h ih =>
    simp only [Bool.and_eq_true, decide_eq_true_eq, List.isPrefixOf_iff_prefix] at h
    obtain ⟨⟨rfl, v, rfl⟩, hlast⟩ := h
    have hv : v.head? ≠ some '\x7b' := by simpa [List.head?_eq_getElem?] using hlast
    have hread := marks_surplus 0 (head?_flatMap hf (by decide) hv)
    simp only [List.cons_append, List.nil_append, List.drop_succ_cons, List.drop_zero] at ih
    rw [ih] at hread
    simpa [hopen, Mark.written] using hread
  | case3 c cs _ h ih =>
    simp only [Bool.and_eq_true, decide_eq_true_eq, List.isPrefixOf_iff_prefix] at h
    obtain ⟨rfl, v, rfl⟩ := h
    have hread := marks_closing (v.flatMap f)
    simp only [List.cons_append, List.nil_append, List.drop_succ_cons, List.drop_zero] at ih
    rw [ih] at hread
    simpa [hclose, closing, Mark.written] using hread
  | case4 cs _ _ ih => simp [hbar, marks_bar, Mark.written, ih]
  | case5 c cs hopening hclosing hnot ih =>
    by_cases hc : c = '\x7b'
    · subst hc
      have hread : marks ('\x7b' :: cs.flatMap f) = _ :=
        marks_brace_flatMap hf (by simpa using hopening)
      rw [List.flatMap_cons, hopen, List.singleton_append, hread, ih, List.flatMap_cons,
        Mark.written, hopen, List.map_singleton, List.singleton_append]
    · by_cases hd : c = '\x7d'
      · subst hd
        have hthree : closing.isPrefixOf ('\x7d' :: cs) = false :=
          Bool.eq_false_iff.2 fun h => hclosing h
        have hread := marks_not_closing ((isPrefixOf_cons_flatMap hf (by decide) 3 cs).trans hthree)
        rw [List.flatMap_cons, hclose, List.singleton_append, hread, ih, List.flatMap_cons,
          Mark.written, hclose, List.map_singleton, List.singleton_append]
      · have hplain : isSign c = false := by simp [isSign, hc, hd, hnot]
        rw [List.flatMap_cons, marks_plain (hf.other c hplain), ih, List.flatMap_cons, Mark.written]

/-! ## Pieces of a template -/

theorem written_ofText (t : Text) : (ofText t).written f = ofText (t.flatMap f) := by
  unfold ofText
  by_cases ht : t = []
  · rw [ht]
    rfl
  · have hforms : t.flatMap f ≠ [] := by
      obtain ⟨c, cs, rfl⟩ := List.exists_cons_of_ne_nil ht
      rw [List.flatMap_cons]
      exact List.append_ne_nil_of_left_ne_nil (hf.ne_nil c) _
    rw [if_neg ht, if_neg hforms]
    rfl

omit hf in
theorem written_join (a b : Template) :
    (a.join b).written f = (a.written f).join (b.written f) := by
  induction a with
  | nil => rfl
  | text s rest ih =>
    cases rest with
    | nil =>
      cases b with
      | text t c => simp [join, written]
      | nil | slot | slotOr => rfl
    | text | slot | slotOr => exact congrArg (Template.text _) ih
  | slot name rest _ ih => exact congrArg (Template.slot _) ih
  | slotOr name fallback rest _ _ ih => exact congrArg (Template.slotOr _ _) ih

namespace OpenSlot

variable (s : OpenSlot)

omit hf in
theorem written_add (t : Template) : (s.add t).written f = (s.written f).add (t.written f) := by
  simp only [add, written, written_join]

omit hf in
theorem allParts_written : (s.written f).allParts = s.allParts.map (Template.written f) := by
  simp [allParts, written]

omit hf in
theorem written_close : s.close.written f = (s.written f).close := by
  unfold close
  rw [allParts_written]
  cases s.allParts with
  | nil => rfl
  | cons name parts =>
    cases parts with
    | nil => rfl
    | cons fallback parts => rfl

theorem written_barred (parts : List Template) :
    (barred parts).written f = barred (parts.map (Template.written f)) := by
  have hbar : ['|'].flatMap f = ['|'] := flatMap_signs hf (by decide)
  fun_induction barred parts with
  | case1 => rfl
  | case2 part => rfl
  | case3 part parts hne ih =>
    cases parts with
    | nil => exact absurd rfl hne
    | cons next parts =>
      rw [written_join, written_join, ih, written_ofText hf, hbar]
      rfl

theorem written_literal : s.literal.written f = (s.written f).literal := by
  have hopening : opening.flatMap f = opening := flatMap_signs hf (by decide)
  rw [literal, literal, written_join, written_barred hf, written_ofText hf, hopening,
    allParts_written]

end OpenSlot

/-! ## Reading -/

namespace Reader

variable (r : Reader)

omit hf in
theorem written_add (t : Template) : (r.add t).written f = (r.written f).add (t.written f) := by
  obtain ⟨root, stack, run⟩ := r
  cases stack with
  | nil => simp only [add, written, written_join, List.map_nil]
  | cons s outer => simp only [add, written, OpenSlot.written_add, List.map_cons]

theorem written_flush : r.flush.written f = (r.written f).flush := by
  have hadded := written_add r (f := f) (ofText r.run.reverse)
  have hrun : (r.written f).run.reverse = r.run.reverse.flatMap f := by simp [written]
  rw [written_ofText hf, ← hrun] at hadded
  rw [flush, flush, ← hadded]
  rfl

omit hf in
theorem written_say (t : Text) : (r.say t).written f = (r.written f).say (t.flatMap f) := by
  simp [say, written, List.reverseAux_eq]

/-- **A mark does the same** before and after its text is written form by form. -/
theorem written_step (mark : Mark) :
    (r.step mark).written f = (mark.written f).foldl step (r.written f) := by
  have hflush := written_flush hf r
  have hsaid {s : Text} (hs : s.all isSign = true) :
      (r.say s).written f = (r.written f).say s := by
    rw [written_say, flatMap_signs hf hs]
  have hstack : (r.written f).flush.stack = r.flush.stack.map (OpenSlot.written f) := by
    rw [← hflush]
    rfl
  cases mark with
  | char c => rw [Mark.written, foldl_say, step, written_say, List.flatMap_singleton]
  | opening =>
    have hlength : (r.written f).stack.length = r.stack.length := List.length_map _
    simp only [Mark.written, List.foldl_cons, List.foldl_nil, step, hlength]
    split
    · rw [← hflush]
      rfl
    · exact hsaid (by decide)
  | bar =>
    simp only [Mark.written, List.foldl_cons, List.foldl_nil, step]
    cases hr : r.flush.stack with
    | nil =>
      rw [hr] at hstack
      simp only [hstack, List.map_nil]
      exact hsaid (by decide)
    | cons s outer =>
      rw [hr] at hstack
      simp only [hstack, List.map_cons]
      rw [← hflush]
      rfl
  | closing =>
    simp only [Mark.written, List.foldl_cons, List.foldl_nil, step]
    cases hr : r.flush.stack with
    | nil =>
      rw [hr] at hstack
      simp only [hstack, List.map_nil]
      exact hsaid (by decide)
    | cons s outer =>
      rw [hr] at hstack
      simp only [hstack, List.map_cons, written_add, OpenSlot.written_close]
      rw [← hflush]
      rfl

theorem written_foldl (ms : List Mark) :
    (ms.foldl step r).written f = (ms.flatMap (Mark.written f)).foldl step (r.written f) := by
  induction ms generalizing r with
  | nil => rfl
  | cons mark ms ih =>
    rw [List.foldl_cons, ih, List.flatMap_cons, List.foldl_append, written_step hf]

theorem written_collapse (root : Template) (stack : List OpenSlot) :
    (collapse root stack).written f =
      collapse (root.written f) (stack.map (OpenSlot.written f)) := by
  fun_induction collapse root stack with
  | case1 => rw [List.map_nil, collapse]
  | case2 s =>
    rw [List.map_singleton, collapse, written_join, OpenSlot.written_literal hf]
  | case3 s outer stack ih =>
    rw [ih, List.map_cons, List.map_cons, List.map_cons, OpenSlot.written_add,
      OpenSlot.written_literal hf, collapse]

end Reader

/-- **Written form by form, a text is parsed as the template written form by form.** -/
theorem parse_flatMap (t : Text) : parse (t.flatMap f) = (parse t).written f := by
  have hread : (((marks t).foldl Reader.step {}).flush).written f =
      ((marks (t.flatMap f)).foldl Reader.step {}).flush := by
    rw [Reader.written_flush hf, Reader.written_foldl hf, ← marks_flatMap hf]
    rfl
  rw [parse, parse, Reader.finish, Reader.finish, Reader.written_collapse hf, ← hread]
  rfl

/-! ## Filling in -/

/-- **What is filled in is written form by form**, if the values are, and if the names that are
looked up are written as they are. -/
theorem expand_written {b b' : Bindings}
    (hb : ∀ name, b'.get? name = (b.get? name).map (·.flatMap f)) {t : Template}
    (hnames : ∀ name ∈ t.reachedNames b, name.flatMap f = name) :
    (t.written f).expand b' = (t.expand b).flatMap f := by
  have hopening : opening.flatMap f = opening := flatMap_signs hf (by decide)
  have hclosing : closing.flatMap f = closing := flatMap_signs hf (by decide)
  induction t with
  | nil => rfl
  | text u rest ih => rw [written, expand, expand, List.flatMap_append, ih hnames]
  | slot name rest ihname ih =>
    simp only [reachedNames, List.forall_mem_append, List.forall_mem_cons] at hnames
    obtain ⟨hinside, hname, hrest⟩ := hnames
    have hlookup : (name.written f).expand b' = name.expand b := by
      rw [ihname hinside, hname]
    simp only [written, expand, hlookup, hb, ih hrest, List.flatMap_append]
    cases b.get? (Text.trim (name.expand b)) with
    | some v => rfl
    | none => simp [hopening, hclosing, hname]
  | slotOr name fallback rest ihname ihfallback ih =>
    simp only [reachedNames, List.forall_mem_append, List.forall_mem_cons] at hnames
    obtain ⟨hinside, hname, hfallback, hrest⟩ := hnames
    have hlookup : (name.written f).expand b' = name.expand b := by
      rw [ihname hinside, hname]
    simp only [written, expand, hlookup, hb, ih hrest, List.flatMap_append]
    cases hvalue : b.get? (Text.trim (name.expand b)) with
    | some v => rfl
    | none =>
      -- The fallback is taken, so the names in it are looked up.
      rw [hvalue, Option.isSome_none, if_neg Bool.false_ne_true] at hfallback
      simp [ihfallback hfallback]

end Stencil.Template
