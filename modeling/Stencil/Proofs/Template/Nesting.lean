import Stencil.Proofs.Template.Extent

/-!
# Nesting

Placeholders can be nested in names and in fallbacks, and what fills a template in calls itself for
each of them (`expandWithin?`, with a limit on the calls that are open at once). `depth` is how deep
they are nested.

The limit on open placeholders is checked only where one is opened. It bounds the depth of what is
parsed because a placeholder with others around it has that much less room for what it holds
(`Fits`): where one is closed it moves out by one level and is one deeper, and where one is never
closed what it holds moves out as it is. Every mark keeps this (`Reader.Bounded.step`), and so does
taking as text what is still open at the end (`Reader.Bounded.unwind`).
-/

namespace Stencil.Template

/-- The template with its placeholders filled in, by a recursion that goes at most so many levels
deep: one for the template itself, and one more for each name or fallback that is filled in. -/
def expandWithin? (b : Bindings) : Nat → Template → Option Text
  | 0, _ => none
  | _ + 1, .nil => some []
  | n + 1, .text t rest => (expandWithin? b (n + 1) rest).map (t ++ ·)
  | n + 1, .slot name rest =>
    (expandWithin? b n name).bind fun raw =>
      (expandWithin? b (n + 1) rest).map fun after =>
        (b.get? (Text.trim raw)).getD (opening ++ raw ++ closing) ++ after
  | n + 1, .slotOr name fallback rest =>
    (expandWithin? b n name).bind fun raw =>
      ((b.get? (Text.trim raw)).or (expandWithin? b n fallback)).bind fun value =>
        (expandWithin? b (n + 1) rest).map fun after => value ++ after

/-- Whether what has been read of the open placeholders of a stack, innermost first, has room in
them: each has less room than the one around it. -/
def Fits : List OpenSlot → Prop
  | [] => True
  | s :: outer => (∀ t ∈ s.allParts, t.depth + outer.length < maxNesting) ∧ Fits outer

/-- Whether all that a reader has read is nested no deeper than allowed. -/
structure Reader.Bounded (r : Reader) : Prop where
  root : r.root.depth ≤ maxNesting
  stack : Fits r.stack

/-! ## Filling in -/

/-- **A recursion one deeper than the placeholders are nested** fills the template in. -/
theorem expandWithin?_eq (b : Bindings) {t : Template} {n : Nat} (h : t.depth ≤ n) :
    expandWithin? b (n + 1) t = some (t.expand b) := by
  induction t generalizing n with
  | nil => rfl
  | text u rest ih =>
    rw [expandWithin?, ih h]
    rfl
  | slot name rest ihname ih =>
    obtain ⟨hname, hrest⟩ := Nat.max_le.1 h
    obtain ⟨m, rfl⟩ : ∃ m, n = m + 1 := ⟨n - 1, by omega⟩
    rw [expandWithin?, ihname (by omega), ih hrest]
    rfl
  | slotOr name fallback rest ihname ihfallback ih =>
    obtain ⟨hslot, hrest⟩ := Nat.max_le.1 h
    obtain ⟨m, rfl⟩ : ∃ m, n = m + 1 := ⟨n - 1, by omega⟩
    rw [expandWithin?, ihname (by omega), ihfallback (by omega), ih hrest, Option.bind_some, expand]
    cases b.get? (Text.trim (name.expand b)) with
    | none => rfl
    | some v => rfl

/-! ## Depth -/

theorem depth_ofText (u : Text) : (ofText u).depth = 0 := by
  unfold ofText
  split
  · rfl
  · rfl

@[simp] theorem depth_join (a b : Template) : (a.join b).depth = max a.depth b.depth := by
  induction a with
  | nil => exact (Nat.zero_max _).symm
  | text s rest ih =>
    cases rest with
    | nil => cases b <;> exact (Nat.zero_max _).symm
    | text | slot | slotOr => exact ih
  | slot name rest _ ih => rw [join, depth, ih, depth, Nat.max_assoc]
  | slotOr name fallback rest _ _ ih => rw [join, depth, ih, depth, Nat.max_assoc]

namespace OpenSlot

variable {s : OpenSlot} {n : Nat}

theorem depth_barred_le {parts : List Template} (h : ∀ t ∈ parts, t.depth ≤ n) :
    (barred parts).depth ≤ n := by
  induction parts with
  | nil => exact Nat.zero_le n
  | cons part parts ih =>
    obtain ⟨hpart, hparts⟩ := List.forall_mem_cons.1 h
    cases parts with
    | nil => exact hpart
    | cons next parts =>
      change (part.join ((ofText ['|']).join (barred (next :: parts)))).depth ≤ n
      rw [depth_join, depth_join, depth_ofText, Nat.zero_max]
      exact Nat.max_le.2 ⟨hpart, ih hparts⟩

theorem depth_literal_le (h : ∀ t ∈ s.allParts, t.depth ≤ n) : s.literal.depth ≤ n := by
  rw [literal, depth_join, depth_ofText, Nat.zero_max]
  exact depth_barred_le h

theorem depth_close_le (h : ∀ t ∈ s.allParts, t.depth ≤ n) : s.close.depth ≤ n + 1 := by
  unfold close
  split
  · next name fallback parts hparts =>
    rw [hparts] at h
    have hname := h name List.mem_cons_self
    have hfallback := h fallback (List.mem_cons_of_mem _ List.mem_cons_self)
    simp only [depth]
    omega
  · next name hparts =>
    rw [hparts] at h
    have hname := h name List.mem_cons_self
    simp only [depth]
    omega
  · simp only [depth]
    omega

theorem mem_allParts {t : Template} : t ∈ s.allParts ↔ t = s.current ∨ t ∈ s.parts := by
  rw [allParts, List.mem_reverse, List.mem_cons]

end OpenSlot

/-! ## Reading -/

/-- With room for the text that is being read, there is room for the placeholder itself. -/
theorem Fits.length_le {stack : List OpenSlot} (h : Fits stack) : stack.length ≤ maxNesting := by
  cases stack with
  | nil => exact Nat.zero_le _
  | cons s outer =>
    have hcurrent := h.1 s.current (OpenSlot.mem_allParts.2 (.inl rfl))
    rw [List.length_cons]
    omega

namespace Reader

variable {r : Reader} {s : OpenSlot} {outer : List OpenSlot} {t : Template}

/-- What is added to the innermost open placeholder has to fit into it. -/
theorem Bounded.add (h : r.Bounded) (ht : t.depth + r.stack.length ≤ maxNesting) :
    (r.add t).Bounded := by
  have hstack := h.stack
  unfold Reader.add
  split
  · next hnil =>
    refine ⟨?_, hnil ▸ hstack⟩
    rw [depth_join]
    exact Nat.max_le.2 ⟨h.root, Nat.le_trans (Nat.le_add_right _ _) ht⟩
  · next s outer hcons =>
    rw [hcons] at hstack ht
    rw [List.length_cons] at ht
    obtain ⟨hparts, houter⟩ := hstack
    refine ⟨h.root, fun u hu => ?_, houter⟩
    rcases OpenSlot.mem_allParts.1 hu with rfl | hu
    · have hcurrent := hparts s.current (OpenSlot.mem_allParts.2 (.inl rfl))
      change (s.current.join t).depth + _ < _
      rw [depth_join]
      omega
    · exact hparts u (OpenSlot.mem_allParts.2 (.inr hu))

theorem Bounded.flush (h : r.Bounded) : r.flush.Bounded := by
  have hroom : (ofText r.run.reverse).depth + r.stack.length ≤ maxNesting := by
    rw [depth_ofText, Nat.zero_add]
    exact h.stack.length_le
  have hadd := h.add hroom
  exact ⟨hadd.root, hadd.stack⟩

/-- Without the innermost open placeholder there is room for what it holds, one deeper or not. -/
theorem Bounded.leave (h : r.Bounded) (hstack : r.stack = s :: outer)
    (ht : ∀ n, (∀ u ∈ s.allParts, u.depth ≤ n) → t.depth ≤ n + 1) :
    ({ r with stack := outer }.add t).Bounded := by
  have hfits := h.stack
  rw [hstack] at hfits
  obtain ⟨hparts, houter⟩ := hfits
  have hroom : (s :: outer).length ≤ maxNesting := Fits.length_le ⟨hparts, houter⟩
  have hdepth := ht (maxNesting - (outer.length + 1)) fun u hu => by
    have hu := hparts u hu
    omega
  rw [List.length_cons] at hroom
  exact Bounded.add (r := { r with stack := outer }) ⟨h.root, houter⟩ (by dsimp only; omega)

/-- **A mark leaves the nesting bounded.** -/
theorem Bounded.step (h : r.Bounded) (mark : Mark) : (r.step mark).Bounded := by
  have hflush := h.flush
  cases mark with
  | char c => exact ⟨h.root, h.stack⟩
  | opening =>
    rw [Reader.step]
    split
    · next hroom =>
      refine ⟨hflush.root, fun t ht => ?_, hflush.stack⟩
      obtain rfl : t = .nil := by simpa [OpenSlot.allParts] using ht
      rw [length_stack_flush]
      exact Nat.lt_of_le_of_lt (Nat.le_of_eq (Nat.zero_add _)) hroom
    · exact ⟨h.root, h.stack⟩
  | bar =>
    rw [Reader.step]
    split
    · exact ⟨h.root, h.stack⟩
    · next s outer hstack =>
      have hfits := hflush.stack
      rw [hstack] at hfits
      obtain ⟨hparts, houter⟩ := hfits
      refine ⟨hflush.root, fun t ht => ?_, houter⟩
      rcases OpenSlot.mem_allParts.1 ht with rfl | ht
      · have hcurrent := hparts s.current (OpenSlot.mem_allParts.2 (.inl rfl))
        exact Nat.lt_of_le_of_lt (by dsimp only [depth]; omega) hcurrent
      · exact hparts t (OpenSlot.mem_allParts.2 (List.mem_cons.1 ht))
  | closing =>
    rw [Reader.step]
    split
    · exact ⟨h.root, h.stack⟩
    · next s outer hstack => exact hflush.leave hstack fun n => OpenSlot.depth_close_le

theorem Bounded.foldl (h : r.Bounded) (ms : List Mark) : (ms.foldl Reader.step r).Bounded := by
  induction ms generalizing r with
  | nil => exact h
  | cons mark ms ih => exact ih (h.step mark)

/-- Taking the innermost open placeholder as text leaves the nesting bounded. -/
theorem Bounded.unwind (h : r.Bounded) (hstack : r.stack = s :: outer) :
    ({ r with stack := outer }.add s.literal).Bounded :=
  h.leave hstack fun _ hparts => Nat.le_succ_of_le (OpenSlot.depth_literal_le hparts)

/-- A mark opens one placeholder at most. -/
theorem length_stack_step_le (r : Reader) (mark : Mark) :
    (r.step mark).stack.length ≤ r.stack.length + if mark = .opening then 1 else 0 := by
  have houtcome := r.outcome_step mark
  generalize r.step mark = r' at houtcome
  cases houtcome with
  | said => exact Nat.le_add_right _ _
  | opened _ _ hstack => exact Nat.le_of_eq hstack
  | barred _ hstack => exact Nat.le_of_eq hstack
  | closed _ hstack => exact Nat.le_of_succ_le (Nat.le_of_eq hstack.symm)

/-- Placeholders that are still open are taken as text one by one. -/
theorem collapse_cons (r : Reader) (s : OpenSlot) (outer : List OpenSlot) :
    collapse r.root (s :: outer) =
      collapse ({ r with stack := outer }.add s.literal).root
        ({ r with stack := outer }.add s.literal).stack := by
  cases outer with
  | nil => rw [collapse, Reader.add, collapse]
  | cons s' outer => rw [collapse, Reader.add]

end Reader

theorem Reader.Bounded.depth_collapse_le {r : Reader} (h : r.Bounded) :
    (Reader.collapse r.root r.stack).depth ≤ maxNesting := by
  induction hn : r.stack.length generalizing r with
  | zero =>
    rw [List.length_eq_zero_iff.1 hn, Reader.collapse]
    exact h.root
  | succ n ih =>
    obtain ⟨s, outer, hstack⟩ := List.exists_cons_of_length_eq_add_one hn
    rw [hstack, Reader.collapse_cons]
    refine ih (h.unwind hstack) ?_
    rw [hstack, List.length_cons] at hn
    rw [Reader.length_stack_add]
    exact Nat.succ.inj hn

/-- **What is parsed is nested no deeper than allowed.** -/
theorem depth_parse_le (t : Text) : (parse t).depth ≤ maxNesting := by
  have hstart : Reader.Bounded {} := ⟨Nat.zero_le _, trivial⟩
  exact (hstart.foldl (marks t)).flush.depth_collapse_le

end Stencil.Template
