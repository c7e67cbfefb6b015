import Stencil.Proofs.Template.Spelling
import Stencil.Render.Place

/-!
# One placeholder and nothing else

Seen from outside, a reader of a template has read nothing yet, is inside the first placeholder, has
read the whole of it, or has read more than one placeholder: its `Extent`. One mark after another,
the extent follows the reader (`of_step`), so a text is parsed as one placeholder and nothing else
just when the mark that closes the first placeholder comes last (`isPlaceholder_parse`).

`Render.isSinglePlaceholder` counts braces instead of marks. The counts agree where each brace is
one of three that the reader takes for a mark (`Regular`), and only there is the text that is told
to be one placeholder the text that is parsed as one (`isSinglePlaceholder_iff`).
-/

namespace Stencil.Template

/-- Whether a template is one placeholder and nothing else. -/
def isPlaceholder : Template → Bool
  | .slot _ .nil | .slotOr _ _ .nil => true
  | _ => false

/-- How far a reader has come with the first placeholder. -/
inductive Extent where
  | nothing
  /-- In the first placeholder, with `height` placeholders open. -/
  | inside (height : Nat)
  /-- At the end of the first placeholder, with nothing before or after it. -/
  | whole
  | more
  deriving DecidableEq, Repr

/-- The extent after a mark. -/
def Extent.step : Extent → Mark → Extent
  | .nothing, .opening => .inside 1
  | .inside n, .opening => .inside (if n < maxNesting then n + 1 else n)
  | .inside n, .closing => if n = 1 then .whole else .inside (n - 1)
  | .inside n, .char _ | .inside n, .bar => .inside n
  | _, _ => .more

/-- The extent of a text. -/
def extent (t : Text) : Extent := (marks t).foldl Extent.step .nothing

/-! ## Pieces of a template -/

section Pieces

variable {a b : Template}

@[simp] theorem join_nil (a : Template) : a.join .nil = a := by
  induction a with
  | nil => rfl
  | text s rest ih =>
    cases rest with
    | nil => rfl
    | text | slot | slotOr => exact congrArg (Template.text s) ih
  | slot name rest _ ih => exact congrArg (Template.slot name) ih
  | slotOr name fallback rest _ _ ih => exact congrArg (Template.slotOr name fallback) ih

theorem join_ne_nil_left (ha : a ≠ .nil) (b : Template) : a.join b ≠ .nil := by
  unfold join
  split
  · exact absurd rfl ha
  all_goals exact Template.noConfusion

theorem join_ne_nil_right (a : Template) (hb : b ≠ .nil) : a.join b ≠ .nil := by
  by_cases ha : a = .nil
  · rw [ha]
    exact hb
  · exact join_ne_nil_left ha b

theorem join_text (s : Text) (rest b : Template) :
    ∃ u c, (Template.text s rest).join b = .text u c := by
  cases rest with
  | nil =>
    cases b with
    | nil => exact ⟨s, .nil, rfl⟩
    | text t c => exact ⟨s ++ t, c, rfl⟩
    | slot name c => exact ⟨s, .slot name c, rfl⟩
    | slotOr name fallback c => exact ⟨s, .slotOr name fallback c, rfl⟩
  | text | slot | slotOr => exact ⟨s, _, rfl⟩

theorem isPlaceholder_slot (name : Template) {rest : Template} (h : rest ≠ .nil) :
    (Template.slot name rest).isPlaceholder = false := by
  cases rest with
  | nil => exact absurd rfl h
  | text | slot | slotOr => rfl

theorem isPlaceholder_slotOr (name fallback : Template) {rest : Template} (h : rest ≠ .nil) :
    (Template.slotOr name fallback rest).isPlaceholder = false := by
  cases rest with
  | nil => exact absurd rfl h
  | text | slot | slotOr => rfl

theorem isPlaceholder_join (ha : a ≠ .nil) (hb : b ≠ .nil) : (a.join b).isPlaceholder = false := by
  cases a with
  | nil => exact absurd rfl ha
  | text s rest =>
    obtain ⟨u, c, h⟩ := join_text s rest b
    rw [h]
    rfl
  | slot name rest => exact isPlaceholder_slot name (join_ne_nil_right rest hb)
  | slotOr name fallback rest =>
    exact isPlaceholder_slotOr name fallback (join_ne_nil_right rest hb)

theorem isPlaceholder_join_of_not (ha : a ≠ .nil) (h : a.isPlaceholder = false) (b : Template) :
    (a.join b).isPlaceholder = false := by
  by_cases hb : b = .nil
  · rwa [hb, join_nil]
  · exact isPlaceholder_join ha hb

theorem ofText_ne_nil {u : Text} (h : u ≠ []) : ofText u ≠ .nil := by
  rw [ofText, if_neg h]
  exact Template.noConfusion

theorem ne_nil_of_isPlaceholder (h : a.isPlaceholder = true) : a ≠ .nil := by
  rintro rfl
  cases h

theorem isPlaceholder_ofText (u : Text) : (ofText u).isPlaceholder = false := by
  unfold ofText
  split
  · rfl
  · rfl

theorem isPlaceholder_close (s : OpenSlot) : s.close.isPlaceholder = true := by
  unfold OpenSlot.close
  split
  · rfl
  · rfl
  · rfl

end Pieces

/-! ## Reading a mark -/

theorem Mark.text_ne_nil (mark : Mark) : mark.text ≠ [] := by
  cases mark with
  | char c => exact List.cons_ne_nil c []
  | opening | bar | closing => decide

namespace Reader

variable {r : Reader}

/-- What a mark can do: it is text, or it opens a placeholder, ends a part of one, or closes one. -/
inductive Outcome (r : Reader) : Mark → Reader → Prop where
  | said {mark : Mark} (hopening : mark = .opening → ¬r.stack.length < maxNesting)
      (hclosing : mark = .closing → r.stack = []) : Outcome r mark (r.say mark.text)
  | opened {r' : Reader} (hroom : r.stack.length < maxNesting) (hroot : r'.root = r.flush.root)
      (hstack : r'.stack.length = r.stack.length + 1) : Outcome r .opening r'
  | barred {r' : Reader} (hroot : r'.root = r.flush.root)
      (hstack : r'.stack.length = r.stack.length) (hopen : r.stack ≠ []) : Outcome r .bar r'
  | closed {r' : Reader} (slot : OpenSlot) (hstack : r.stack.length = r'.stack.length + 1)
      (hroot : r'.root = if r'.stack = [] then r.flush.root.join slot.close else r.flush.root)
      (hrun : r'.run = []) : Outcome r .closing r'

theorem outcome_step (r : Reader) (mark : Mark) : Outcome r mark (r.step mark) := by
  have hlength := length_stack_flush r
  cases mark with
  | char c => exact .said Mark.noConfusion Mark.noConfusion
  | opening =>
    rw [step]
    split
    · next hroom =>
      refine .opened hroom rfl ?_
      rw [List.length_cons, hlength]
    · next hroom => exact .said (fun _ => hroom) Mark.noConfusion
  | bar =>
    rw [step]
    split
    · exact .said Mark.noConfusion Mark.noConfusion
    · next slot outer hstack =>
      rw [hstack, List.length_cons] at hlength
      refine .barred rfl ?_ ?_
      · rw [List.length_cons, hlength]
      · rintro h
        rw [h] at hlength
        exact absurd hlength (Nat.succ_ne_zero _)
  | closing =>
    rw [step]
    split
    · next hstack =>
      rw [hstack] at hlength
      exact .said Mark.noConfusion fun _ => List.length_eq_zero_iff.1 hlength.symm
    · next slot outer hstack =>
      rw [hstack, List.length_cons] at hlength
      refine .closed slot ?_ ?_ ?_
      · rw [length_stack_add, hlength]
      · have hiff : (({ r.flush with stack := outer } : Reader).add slot.close).stack = [] ↔
            outer = [] := by
          rw [← List.length_eq_zero_iff, length_stack_add, List.length_eq_zero_iff]
        rw [root_add]
        simp only [hiff]
      · exact run_add _ _

theorem finish_outside (hstack : r.stack = []) :
    r.finish = r.root.join (ofText r.run.reverse) := by
  have hflush : r.flush.stack = [] := by
    rw [← List.length_eq_zero_iff, length_stack_flush, hstack]
    rfl
  rw [finish, hflush, collapse, root_flush, if_pos hstack]

/-- Placeholders that are never closed are text after the root. -/
theorem collapse_eq (root : Template) {stack : List OpenSlot} (h : stack ≠ []) :
    ∃ u c, collapse root stack = root.join (.text u c) := by
  fun_induction collapse root stack with
  | case1 => exact absurd rfl h
  | case2 slot =>
    obtain ⟨u, c, hliteral⟩ := join_text opening .nil (OpenSlot.barred slot.allParts)
    exact ⟨u, c, congrArg _ hliteral⟩
  | case3 slot outer stack ih => exact ih (List.cons_ne_nil _ _)

theorem finish_inside (h : r.stack ≠ []) : ∃ u c, r.finish = r.root.join (.text u c) := by
  obtain ⟨u, c, hcollapse⟩ := collapse_eq r.flush.root (stack_flush_ne_nil h)
  refine ⟨u, c, hcollapse.trans ?_⟩
  rw [root_flush, if_neg h]

theorem run_say_ne_nil (r : Reader) (mark : Mark) : (r.say mark.text).run ≠ [] := by
  simp [say, List.reverseAux_eq, mark.text_ne_nil]

end Reader

/-! ## A reader from outside -/

namespace Extent

/-- Whether a reader has come as far as an extent says. -/
inductive Of : Extent → Reader → Prop where
  | nothing : Of .nothing {}
  | inside {n : Nat} {r : Reader} (hroot : r.root = .nil) (hstack : r.stack.length = n)
      (hn : 0 < n) : Of (.inside n) r
  | whole {r : Reader} (hroot : r.root.isPlaceholder = true) (hstack : r.stack = [])
      (hrun : r.run = []) : Of .whole r
  /-- The root is something else already. -/
  | other {r : Reader} (hroot : r.root ≠ .nil) (h : r.root.isPlaceholder = false) : Of .more r
  /-- After something another placeholder is open. -/
  | opened {r : Reader} (hroot : r.root ≠ .nil) (hstack : r.stack ≠ []) : Of .more r
  /-- There is text outside every placeholder. -/
  | said {r : Reader} (hstack : r.stack = []) (hrun : r.run ≠ []) : Of .more r

variable {e : Extent} {r : Reader} {n : Nat}

theorem root_flush_ne_nil (h : Of .more r) : r.flush.root ≠ .nil := by
  rw [Reader.root_flush]
  cases h with
  | other hroot | opened hroot =>
    split
    · exact join_ne_nil_left hroot _
    · exact hroot
  | said hstack hrun =>
    rw [if_pos hstack]
    exact join_ne_nil_right _ (ofText_ne_nil (by simpa using hrun))

theorem of_step_more (h : Of .more r) (mark : Mark) : Of .more (r.step mark) := by
  have hroot := root_flush_ne_nil h
  have houtcome := r.outcome_step mark
  generalize r.step mark = r' at houtcome
  cases houtcome with
  | said =>
    cases h with
    | other hroot h => exact .other hroot h
    | opened hroot hstack => exact .opened hroot hstack
    | said hstack => exact .said hstack (r.run_say_ne_nil mark)
  | opened _ hroot' hstack =>
    refine .opened (hroot' ▸ hroot) ?_
    rw [← List.length_pos_iff, hstack]
    exact Nat.succ_pos _
  | barred hroot' hstack hopen =>
    refine .opened (hroot' ▸ hroot) ?_
    rw [← List.length_pos_iff, hstack]
    exact List.length_pos_iff.2 hopen
  | closed slot _ hroot' =>
    by_cases hstack : r'.stack = []
    · rw [if_pos hstack] at hroot'
      have hslot := ne_nil_of_isPlaceholder (isPlaceholder_close slot)
      refine .other ?_ ?_
      · exact hroot' ▸ join_ne_nil_left hroot _
      · exact hroot' ▸ isPlaceholder_join hroot hslot
    · rw [if_neg hstack] at hroot'
      exact .opened (hroot' ▸ hroot) hstack

theorem of_step_inside (hroot : r.root = .nil) (hstack : r.stack.length = n) (hn : 0 < n)
    (mark : Mark) : ((Extent.inside n).step mark).Of (r.step mark) := by
  have hopen : r.stack ≠ [] := List.length_pos_iff.1 (hstack ▸ hn)
  have hflush : r.flush.root = .nil := by rw [Reader.root_flush, if_neg hopen, hroot]
  have houtcome := r.outcome_step mark
  generalize r.step mark = r' at houtcome
  cases houtcome with
  | said hopening hclosing =>
    have hinside : Of (.inside n) (r.say mark.text) := .inside hroot hstack hn
    cases mark with
    | char | bar => exact hinside
    | opening =>
      rw [step, if_neg (hstack ▸ hopening rfl)]
      exact hinside
    | closing => exact absurd (hclosing rfl) hopen
  | opened hroom hroot' hstack' =>
    rw [step, if_pos (hstack ▸ hroom)]
    exact .inside (hroot'.trans hflush) (hstack'.trans (by rw [hstack])) (Nat.succ_pos n)
  | barred hroot' hstack' => exact .inside (hroot'.trans hflush) (hstack'.trans hstack) hn
  | closed slot hstack' hroot' hrun =>
    rw [hstack] at hstack'
    rw [step]
    by_cases hlast : r'.stack = []
    · rw [if_pos hlast, hflush] at hroot'
      rw [if_pos (by rw [hstack', hlast]; rfl)]
      exact .whole (hroot' ▸ isPlaceholder_close slot) hlast hrun
    · have hpos := List.length_pos_iff.2 hlast
      rw [if_neg hlast, hflush] at hroot'
      rw [if_neg (by omega)]
      exact .inside hroot' (by omega) (by omega)

/-- Outside every placeholder, a mark that does not open one is text. -/
theorem of_step_outside (hstack : r.stack = []) {mark : Mark} (h : mark ≠ .opening) :
    Of .more (r.step mark) := by
  have houtcome := r.outcome_step mark
  generalize r.step mark = r' at houtcome
  cases houtcome with
  | said => exact .said hstack (r.run_say_ne_nil mark)
  | opened => exact absurd rfl h
  | barred _ _ hopen => exact absurd hstack hopen
  | closed _ hlength =>
    rw [hstack] at hlength
    exact absurd hlength.symm (Nat.succ_ne_zero _)

theorem of_step_whole (hroot : r.root.isPlaceholder = true) (hstack : r.stack = []) (mark : Mark) :
    Of .more (r.step mark) := by
  by_cases hmark : mark = .opening
  · subst hmark
    refine .opened ?_ ?_
    · rw [Reader.step, if_pos (by rw [hstack]; decide)]
      rw [Reader.root_flush, if_pos hstack]
      exact join_ne_nil_left (ne_nil_of_isPlaceholder hroot) _
    · rw [Reader.step, if_pos (by rw [hstack]; decide)]
      exact List.cons_ne_nil _ _
  · exact of_step_outside hstack hmark

/-- **The extent follows the reader** through every mark. -/
theorem of_step (h : e.Of r) (mark : Mark) : (e.step mark).Of (r.step mark) := by
  cases e with
  | nothing =>
    cases h
    cases mark with
    | opening => exact .inside rfl rfl Nat.one_pos
    | char | bar | closing => exact of_step_outside rfl Mark.noConfusion
  | inside n =>
    cases h with
    | inside hroot hstack hn => exact of_step_inside hroot hstack hn mark
  | whole =>
    cases h with
    | whole hroot hstack => exact of_step_whole hroot hstack mark
  | more => exact of_step_more h mark

theorem of_foldl (h : e.Of r) (ms : List Mark) : (ms.foldl step e).Of (ms.foldl Reader.step r) := by
  induction ms generalizing e r with
  | nil => exact h
  | cons mark ms ih => exact ih (of_step h mark)

theorem isPlaceholder_finish_of_more (h : Of .more r) : r.finish.isPlaceholder = false := by
  by_cases hstack : r.stack = []
  · rw [Reader.finish_outside hstack]
    cases h with
    | other hroot h => exact isPlaceholder_join_of_not hroot h _
    | opened _ hopen => exact absurd hstack hopen
    | said _ hrun =>
      by_cases hroot : r.root = .nil
      · rw [hroot]
        exact isPlaceholder_ofText _
      · exact isPlaceholder_join hroot (ofText_ne_nil (by simpa using hrun))
  · obtain ⟨u, c, hfinish⟩ := Reader.finish_inside hstack
    rw [hfinish]
    cases h with
    | other hroot | opened hroot => exact isPlaceholder_join hroot Template.noConfusion
    | said houtside => exact absurd houtside hstack

/-- What is read is one placeholder just when its extent is the whole of the first. -/
theorem isPlaceholder_finish (h : e.Of r) : r.finish.isPlaceholder = true ↔ e = .whole := by
  cases e with
  | nothing =>
    cases h
    rw [Reader.finish_outside rfl]
    decide
  | inside n =>
    cases h with
    | inside hroot hstack hn =>
      obtain ⟨u, c, hfinish⟩ := Reader.finish_inside (List.length_pos_iff.1 (hstack ▸ hn))
      rw [hfinish, hroot]
      exact iff_of_false Bool.false_ne_true Extent.noConfusion
  | whole =>
    cases h with
    | whole hroot hstack hrun =>
      rw [Reader.finish_outside hstack, hrun, List.reverse_nil]
      exact iff_of_true ((join_nil r.root).symm ▸ hroot) rfl
  | more =>
    rw [isPlaceholder_finish_of_more h]
    exact iff_of_false Bool.false_ne_true Extent.noConfusion

end Extent

/-- **A text is parsed as one placeholder** just when the mark that closes the first comes last. -/
theorem isPlaceholder_parse (t : Text) : (parse t).isPlaceholder = true ↔ extent t = .whole :=
  Extent.isPlaceholder_finish (Extent.of_foldl .nothing (marks t))

/-! ## Counting braces -/

/-- Whether, with `height` placeholders open, every brace is one of three that are a mark, and no
mark opens a placeholder that is nested too deep. -/
def Regular : Nat → List Mark → Bool
  | _, [] => true
  | height, .char c :: ms => c ≠ '\x7b' && c ≠ '\x7d' && Regular height ms
  | height, .bar :: ms => Regular height ms
  | height, .opening :: ms => height < maxNesting && Regular (height + 1) ms
  | height, .closing :: ms => Regular (height - 1) ms

open Render (closesAtEnd isSinglePlaceholder)

theorem closesAtEnd_opening (depth : Nat) (t : Text) :
    closesAtEnd depth (opening ++ t) = closesAtEnd (depth + 3) t := rfl

theorem closesAtEnd_open {depth : Nat} (h : 1 < depth) (t : Text) :
    closesAtEnd depth ('\x7d' :: t) = closesAtEnd (depth - 1) t := by
  rw [closesAtEnd, if_neg (by decide), if_pos rfl, if_neg (by simp; omega)]

theorem closesAtEnd_closing (height : Nat) (t : Text) :
    closesAtEnd (3 * (height + 1)) (closing ++ t) =
      if height = 0 then t.isEmpty else closesAtEnd (3 * height) t := by
  change closesAtEnd _ ('\x7d' :: '\x7d' :: '\x7d' :: t) = _
  rw [closesAtEnd_open (by omega), closesAtEnd_open (by omega)]
  split
  · next h =>
    subst h
    cases t with
    | nil => rfl
    | cons c t => rfl
  · next h =>
    rw [closesAtEnd_open (by omega)]
    congr 1

namespace Extent

theorem foldl_more (ms : List Mark) : ms.foldl step .more = .more := by
  induction ms with
  | nil => rfl
  | cons mark ms ih => exact ih

theorem foldl_whole (ms : List Mark) : ms.foldl step .whole = .whole ↔ ms = [] := by
  cases ms with
  | nil => exact iff_of_true rfl rfl
  | cons mark ms =>
    rw [List.foldl_cons, show step .whole mark = .more from rfl, foldl_more]
    exact iff_of_false Extent.noConfusion (List.cons_ne_nil mark ms)

/-- Where each brace is part of a mark, the braces close at the end if the marks do. -/
theorem closesAtEnd_iff {height : Nat} {ms : List Mark} (h : Regular (height + 1) ms = true) :
    closesAtEnd (3 * (height + 1)) (ms.flatMap Mark.text) = true ↔
      ms.foldl step (.inside (height + 1)) = .whole := by
  induction ms generalizing height with
  | nil =>
    have hopen : closesAtEnd (3 * (height + 1)) [] = false := by
      rw [closesAtEnd, decide_eq_false (by omega)]
    rw [List.flatMap_nil, hopen]
    exact iff_of_false Bool.false_ne_true Extent.noConfusion
  | cons mark ms ih =>
    rw [List.flatMap_cons, List.foldl_cons]
    cases mark with
    | char c =>
      simp only [Regular, Bool.and_eq_true, decide_eq_true_eq] at h
      obtain ⟨⟨hopening, hclosing⟩, hms⟩ := h
      have hskip (t : Text) : closesAtEnd (3 * (height + 1)) (Mark.text (.char c) ++ t) =
          closesAtEnd (3 * (height + 1)) t := by
        change closesAtEnd _ (c :: t) = _
        rw [closesAtEnd, if_neg hopening, if_neg hclosing]
      rw [hskip]
      exact ih hms
    | bar => exact ih h
    | opening =>
      simp only [Regular, Bool.and_eq_true, decide_eq_true_eq] at h
      rw [show Mark.text .opening = opening from rfl, closesAtEnd_opening, step, if_pos h.1]
      exact ih h.2
    | closing =>
      rw [show Mark.text .closing = closing from rfl, closesAtEnd_closing, step]
      cases height with
      | zero =>
        rw [if_pos rfl, if_pos rfl, foldl_whole, List.isEmpty_iff, List.flatMap_eq_nil_iff]
        constructor
        · intro hnil
          exact List.eq_nil_iff_forall_not_mem.2 fun mark hmark =>
            mark.text_ne_nil (hnil mark hmark)
        · rintro rfl mark hmark
          cases hmark
      | succ height =>
        rw [if_neg (Nat.succ_ne_zero height), if_neg (by omega)]
        exact ih h

/-- The mark that ends the first placeholder closes it. -/
theorem suffix_of_whole {height : Nat} {ms : List Mark}
    (h : ms.foldl step (.inside height) = .whole) : [.closing] <:+ ms := by
  induction ms generalizing height with
  | nil => cases h
  | cons mark ms ih =>
    rw [List.foldl_cons] at h
    cases mark with
    | char | bar | opening => exact (ih h).trans (List.suffix_cons _ ms)
    | closing =>
      rw [step] at h
      split at h
      · obtain rfl := (foldl_whole ms).1 h
        exact List.suffix_refl _
      · exact (ih h).trans (List.suffix_cons _ ms)

end Extent

/-- Marks of which the first opens no placeholder do not start with the braces of an opening. -/
theorem not_prefix_of_regular {mark : Mark} {ms : List Mark} (hmark : mark ≠ .opening)
    (h : Regular 0 (mark :: ms) = true) :
    opening.isPrefixOf ((mark :: ms).flatMap Mark.text) = false := by
  cases mark with
  | opening => exact absurd rfl hmark
  | bar | closing => rfl
  | char c =>
    simp only [Regular, Bool.and_eq_true, decide_eq_true_eq] at h
    have hc : ('\x7b' == c) = false := beq_eq_false_iff_ne.2 (Ne.symm h.1.1)
    change ('\x7b' == c && _) = false
    rw [hc, Bool.false_and]

/-- **Counting braces tells one placeholder** wherever each brace is part of a mark. -/
theorem isSinglePlaceholder_iff {v : Text} (h : Regular 0 (marks (Text.trim v)) = true) :
    isSinglePlaceholder v = true ↔ (parse (Text.trim v)).isPlaceholder = true := by
  rw [isPlaceholder_parse, extent, isSinglePlaceholder]
  generalize Text.trim v = t at h ⊢
  have htext := text_marks t
  generalize marks t = ms at h htext ⊢
  subst htext
  change (opening.isPrefixOf _ && closing.isSuffixOf _ && closesAtEnd 0 _) = true ↔ _
  cases ms with
  | nil => exact iff_of_false Bool.false_ne_true Extent.noConfusion
  | cons mark ms =>
    by_cases hmark : mark = .opening
    · subst hmark
      have hms : Regular (0 + 1) ms = true := (Bool.and_eq_true_iff.1 h).2
      have hstarts : opening.isPrefixOf ((.opening :: ms).flatMap Mark.text) = true := rfl
      have hcount : closesAtEnd 0 ((.opening :: ms).flatMap Mark.text) = true ↔
          (.opening :: ms).foldl Extent.step .nothing = .whole :=
        Extent.closesAtEnd_iff hms
      rw [hstarts, Bool.true_and, Bool.and_eq_true, hcount]
      refine and_iff_right_of_imp fun hwhole => ?_
      have hwhole : ms.foldl Extent.step (.inside 1) = .whole := hwhole
      obtain ⟨front, hfront⟩ := Extent.suffix_of_whole hwhole
      rw [List.isSuffixOf_iff_suffix, ← hfront]
      exact ⟨opening ++ front.flatMap Mark.text, by simp [Mark.text]⟩
    · have hmore : Extent.step .nothing mark = .more := by
        cases mark with
        | opening => exact absurd rfl hmark
        | char | bar | closing => rfl
      rw [not_prefix_of_regular hmark h, List.foldl_cons, hmore, Extent.foldl_more]
      exact iff_of_false Bool.false_ne_true Extent.noConfusion

/-- A placeholder with a computed name, a fallback, space around it, and a part that is dropped. -/
def computedValue : Text :=
  " \x7b\x7b\x7ba\x7b\x7b\x7b1\x7d\x7d\x7d|\x7b\x7b\x7b2|b\x7d\x7d\x7d; c|d\x7d\x7d\x7d\n".toList

theorem isSinglePlaceholder_iff_computedValue :
    Regular 0 (marks (Text.trim computedValue)) = true ∧
    isSinglePlaceholder computedValue = true ∧
    (parse (Text.trim computedValue)).isPlaceholder = true := by
  have hregular : Regular 0 (marks (Text.trim computedValue)) = true := by decide +kernel
  have hparse : (parse (Text.trim computedValue)).isPlaceholder = true := by decide +kernel
  exact ⟨hregular, (isSinglePlaceholder_iff hregular).2 hparse, hparse⟩

/-- Too many braces, a brace alone, and placeholders that are nested too deep: what is counted is
not what is parsed. -/
theorem isSinglePlaceholder_needs_regular :
    let surplus := "\x7b\x7b\x7b\x7b1\x7d\x7d\x7d\x7d".toList
    let lone := "\x7b\x7b\x7ba\x7db\x7d\x7d\x7d".toList
    let deep := (List.replicate 41 opening).flatten ++ '1' :: (List.replicate 41 closing).flatten
    (isSinglePlaceholder surplus = true ∧ (parse (Text.trim surplus)).isPlaceholder = false) ∧
    (isSinglePlaceholder lone = false ∧ (parse (Text.trim lone)).isPlaceholder = true) ∧
    (isSinglePlaceholder deep = true ∧ (parse (Text.trim deep)).isPlaceholder = false) := by
  decide +kernel

end Stencil.Template
