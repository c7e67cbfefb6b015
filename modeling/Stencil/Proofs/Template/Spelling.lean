import Stencil.Template.Parse

/-!
# How templates are spelled

`Spells s t` says that a text is read as a template: texts stand for themselves and placeholders
stand between their braces, where what follows a second bar is dropped. Every text spells the
template that it is parsed as (`spells_parse`): a mark that is read adds its own text to what has
been read, in the innermost open placeholder or in the root (`reads_step`). So whatever holds of all
parts of a text and of all values holds of what the template is filled in with (`expand_closed`).
-/

namespace Stencil.Template

/-- Whether a text is read as a template. -/
inductive Spells : Text → Template → Prop where
  | nil : Spells [] .nil
  | text (u : Text) {s : Text} {rest : Template} (h : Spells s rest) :
      Spells (u ++ s) (.text u rest)
  | slot {n s : Text} {name rest : Template} (hname : Spells n name) (h : Spells s rest) :
      Spells (opening ++ n ++ closing ++ s) (.slot name rest)
  /-- What follows a second bar, with the bar, is dropped. -/
  | slotOr {n f d s : Text} {name fallback rest : Template} (hname : Spells n name)
      (hfallback : Spells f fallback) (hd : d = [] ∨ ∃ u, d = '|' :: u) (h : Spells s rest) :
      Spells (opening ++ n ++ '|' :: f ++ d ++ closing ++ s) (.slotOr name fallback rest)

theorem spells_ofText (u : Text) : Spells u (ofText u) := by
  unfold ofText
  split
  · next hu =>
    rw [hu]
    exact .nil
  · simpa using Spells.text u .nil

theorem spells_join {s t : Text} {a b : Template} (ha : Spells s a) (hb : Spells t b) :
    Spells (s ++ t) (a.join b) := by
  induction ha with
  | nil => exact hb
  | @text u s rest h ih =>
    rw [List.append_assoc]
    cases h with
    | nil =>
      cases hb with
      | nil => exact .text u .nil
      | text v hrest =>
        rw [List.nil_append, ← List.append_assoc]
        exact .text (u ++ v) hrest
      | slot hname hrest => exact .text u (.slot hname hrest)
      | slotOr hname hfallback hd hrest => exact .text u (.slotOr hname hfallback hd hrest)
    | text | slot | slotOr => exact .text u ih
  | slot hname _ _ ih =>
    rw [List.append_assoc]
    exact .slot hname ih
  | slotOr hname hfallback hd _ _ _ ih =>
    rw [List.append_assoc]
    exact .slotOr hname hfallback hd ih

/-! ## Open placeholders -/

/-- Texts with bars between them. -/
def bars (us : List Text) : Text := ['|'].intercalate us

theorem bars_append {us : List Text} (h : us ≠ []) (v : Text) :
    bars (us ++ [v]) = bars us ++ '|' :: v := by
  induction us with
  | nil => exact absurd rfl h
  | cons u us ih =>
    cases us with
    | nil => simp [bars]
    | cons w us =>
      have hrest := ih (by simp)
      simp only [bars, List.cons_append, List.intercalate_cons_cons, List.append_assoc] at hrest ⊢
      rw [hrest]

/-- After the braces that open a placeholder, whether a text is what has been read of it. -/
inductive OpenSlot.Spells : Text → OpenSlot → Prop where
  | first {u : Text} {t : Template} (h : Template.Spells u t) : Spells u ⟨[], t⟩
  | bar {u v : Text} {parts : List Template} {part t : Template} (hslot : Spells u ⟨parts, part⟩)
      (h : Template.Spells v t) : Spells (u ++ '|' :: v) ⟨part :: parts, t⟩

namespace OpenSlot

variable {u v : Text} {s : OpenSlot}

/-- What has been read of a placeholder are its parts, with bars between them. -/
theorem Spells.parts (h : Spells u s) : ∃ ps : List (Text × Template), ps ≠ [] ∧
    (∀ p ∈ ps, Template.Spells p.1 p.2) ∧ s.allParts = ps.map Prod.snd ∧
    u = bars (ps.map Prod.fst) := by
  induction h with
  | @first u t h => exact ⟨[(u, t)], by simp, by simpa using h, rfl, by simp [bars]⟩
  | @bar u v parts part t _ h ih =>
    obtain ⟨ps, hne, hps, hparts, rfl⟩ := ih
    refine ⟨ps ++ [(v, t)], by simp, ?_, ?_, ?_⟩
    · intro p hp
      rcases List.mem_append.1 hp with hp | hp
      · exact hps p hp
      · rw [List.mem_singleton.1 hp]
        exact h
    · simp only [allParts, List.reverse_cons] at hparts ⊢
      simp [hparts]
    · rw [List.map_append, List.map_singleton, bars_append (by simpa using hne)]

theorem spells_barred {ps : List (Text × Template)} (h : ∀ p ∈ ps, Template.Spells p.1 p.2) :
    Template.Spells (bars (ps.map Prod.fst)) (barred (ps.map Prod.snd)) := by
  induction ps with
  | nil => exact .nil
  | cons p ps ih =>
    obtain ⟨hp, hps⟩ := List.forall_mem_cons.1 h
    cases ps with
    | nil => simpa [bars, barred] using hp
    | cons q qs =>
      simpa [bars, barred, List.intercalate_cons_cons] using
        spells_join hp (spells_join (spells_ofText ['|']) (ih hps))

theorem Spells.literal (h : Spells u s) : Template.Spells (opening ++ u) s.literal := by
  obtain ⟨ps, -, hps, hparts, rfl⟩ := h.parts
  rw [OpenSlot.literal, hparts]
  exact spells_join (spells_ofText opening) (spells_barred hps)

theorem Spells.close (h : Spells u s) : Template.Spells (opening ++ u ++ closing) s.close := by
  obtain ⟨ps, hne, hps, hparts, rfl⟩ := h.parts
  rw [OpenSlot.close, hparts]
  match ps with
  | [] => exact absurd rfl hne
  | [p] => simpa [bars] using Template.Spells.slot (hps p (by simp)) .nil
  | [p, q] =>
    simpa [bars, List.intercalate_cons_cons] using
      Template.Spells.slotOr (hps p (by simp)) (hps q (by simp)) (.inl rfl) .nil
  | p :: q :: r :: ps =>
    have hdropped : ('|' :: bars ((r :: ps).map Prod.fst) : Text) = [] ∨
        ∃ w, '|' :: bars ((r :: ps).map Prod.fst) = '|' :: w := .inr ⟨_, rfl⟩
    simpa [bars, List.intercalate_cons_cons] using
      Template.Spells.slotOr (hps p (by simp)) (hps q (by simp)) hdropped .nil

theorem Spells.add (h : Spells u s) {t : Template} (ht : Template.Spells v t) :
    Spells (u ++ v) (s.add t) := by
  cases h with
  | first h => exact .first (spells_join h ht)
  | bar hslot h =>
    rw [List.append_assoc]
    exact .bar hslot (spells_join h ht)

end OpenSlot

/-! ## Reading -/

/-- The text of a mark. -/
def Mark.text : Mark → Text
  | .char c => [c]
  | .opening => Template.opening
  | .bar => ['|']
  | .closing => Template.closing

theorem text_marks (s : Text) : (marks s).flatMap Mark.text = s := by
  fun_induction marks s with
  | case1 => rfl
  | case2 c cs h ih =>
    simp only [Bool.and_eq_true, decide_eq_true_eq, List.isPrefixOf_iff_prefix] at h
    obtain ⟨⟨rfl, v, rfl⟩, -⟩ := h
    simpa [Mark.text, opening] using ih
  | case3 c cs _ h ih =>
    simp only [Bool.and_eq_true, decide_eq_true_eq, List.isPrefixOf_iff_prefix] at h
    obtain ⟨rfl, v, rfl⟩ := h
    simpa [Mark.text, closing] using ih
  | case4 cs _ _ ih => simpa [Mark.text] using ih
  | case5 c cs _ _ _ ih => simpa [Mark.text] using ih

/-- Whether a text is the root that has been read, and then each open placeholder after its
braces. -/
inductive Stacked (root : Template) : Text → List OpenSlot → Prop where
  | root {s : Text} (h : Spells s root) : Stacked root s []
  | opened {s u : Text} {slot : OpenSlot} {outer : List OpenSlot} (h : Stacked root s outer)
      (hslot : slot.Spells u) : Stacked root (s ++ opening ++ u) (slot :: outer)

/-- Whether a text is what a reader has read. -/
def Reader.Reads (r : Reader) (s : Text) : Prop :=
  ∃ u, Stacked r.root u r.stack ∧ s = u ++ r.run.reverse

namespace Reader

variable {r : Reader} {s u v : Text} {t : Template}

theorem stacked_add (h : Stacked r.root u r.stack) (ht : Spells v t) :
    Stacked (r.add t).root (u ++ v) (r.add t).stack := by
  unfold add
  split
  · next hstack =>
    rw [hstack] at h
    cases h with
    | root h =>
      simp only [hstack]
      exact .root (spells_join h ht)
  · next slot outer hstack =>
    rw [hstack] at h
    cases h with
    | opened h hslot =>
      rw [List.append_assoc]
      exact .opened h (hslot.add ht)

theorem stacked_flush (h : r.Reads s) : Stacked r.flush.root s r.flush.stack := by
  obtain ⟨u, hu, rfl⟩ := h
  exact stacked_add hu (spells_ofText r.run.reverse)

theorem reads_of_stacked (h : Stacked r.root s r.stack) (hrun : r.run = []) : r.Reads s :=
  ⟨s, h, by simp [hrun]⟩

theorem reads_say (h : r.Reads s) (v : Text) : (r.say v).Reads (s ++ v) := by
  obtain ⟨u, hu, rfl⟩ := h
  exact ⟨u, hu, by simp [say, List.reverseAux_eq]⟩

/-- **A mark adds its text** to what has been read. -/
theorem reads_step (h : r.Reads s) (mark : Mark) : (r.step mark).Reads (s ++ mark.text) := by
  have hflush := stacked_flush h
  cases mark with
  | char c => exact reads_say h [c]
  | opening =>
    simp only [step]
    split
    · refine reads_of_stacked ?_ rfl
      simpa [Mark.text] using Stacked.opened hflush (.first .nil)
    · exact reads_say h opening
  | bar =>
    simp only [step]
    split
    · exact reads_say h ['|']
    · next slot outer hstack =>
      rw [hstack] at hflush
      cases hflush with
      | opened hflush hslot =>
        refine reads_of_stacked ?_ rfl
        simpa [Mark.text] using Stacked.opened hflush (.bar hslot .nil)
  | closing =>
    simp only [step]
    split
    · exact reads_say h closing
    · next slot outer hstack =>
      rw [hstack] at hflush
      cases hflush with
      | @opened s u _ _ hflush hslot =>
        let below : Reader := { r.flush with stack := outer }
        have hbelow : Stacked below.root s below.stack := hflush
        have hclosed := stacked_add hbelow hslot.close
        have hrun : (below.add slot.close).run = [] := run_add below slot.close
        refine reads_of_stacked ?_ hrun
        simpa [Mark.text] using hclosed

theorem reads_foldl (ms : List Mark) (h : r.Reads s) :
    (ms.foldl step r).Reads (s ++ ms.flatMap Mark.text) := by
  induction ms generalizing r s with
  | nil => simpa using h
  | cons mark ms ih => simpa using ih (reads_step h mark)

theorem spells_collapse {root : Template} {stack : List OpenSlot} (h : Stacked root s stack) :
    Spells s (collapse root stack) := by
  fun_induction collapse root stack generalizing s with
  | case1 =>
    cases h with
    | root h => exact h
  | case2 slot =>
    cases h with
    | opened h hslot =>
      cases h with
      | root h =>
        rw [List.append_assoc]
        exact spells_join h hslot.literal
  | case3 slot outer stack ih =>
    cases h with
    | opened h hslot =>
      cases h with
      | opened h houter =>
        apply ih
        simpa using Stacked.opened h (houter.add hslot.literal)

end Reader

/-- **A text spells the template that it is parsed as.** -/
theorem spells_parse (s : Text) : Spells s (parse s) := by
  have hstart : Reader.Reads {} [] := ⟨[], .root .nil, rfl⟩
  have hread := Reader.reads_foldl (marks s) hstart
  rw [List.nil_append, text_marks] at hread
  exact Reader.spells_collapse (Reader.stacked_flush hread)

/-! ## Filling in -/

/-- **What holds of all parts of a text and of all values** holds of the filled-in template. -/
theorem expand_closed {P : Text → Prop} (hnil : P []) (happend : ∀ {u v}, P u → P v → P (u ++ v))
    {b : Bindings} (hb : ∀ name v, b.get? name = some v → P v) {s : Text} {t : Template}
    (h : Spells s t) (hs : ∀ u, u <:+: s → P u) : P (t.expand b) := by
  induction h with
  | nil => exact hnil
  | @text u s rest _ ih =>
    have hrest := ih fun v hv => hs v (hv.trans (List.suffix_append u s).isInfix)
    exact happend (hs u (List.prefix_append u s).isInfix) hrest
  | @slot n s name rest _ _ ihname ih =>
    have hrest := ih fun v hv => hs v (hv.trans (List.suffix_append _ s).isInfix)
    refine happend ?_ hrest
    cases hvalue : b.get? (Text.trim (name.expand b)) with
    | some v => exact hb _ v hvalue
    | none =>
      have hname := ihname fun v hv => hs v (hv.trans ⟨opening, closing ++ s, by simp⟩)
      have hopening := hs opening ⟨[], n ++ closing ++ s, by simp⟩
      have hclosing := hs closing ⟨opening ++ n, s, by simp⟩
      exact happend (happend hopening hname) hclosing
  | @slotOr n f d s name fallback rest _ _ _ _ _ ihfallback ih =>
    have hrest := ih fun v hv => hs v (hv.trans (List.suffix_append _ s).isInfix)
    refine happend ?_ hrest
    cases hvalue : b.get? (Text.trim (name.expand b)) with
    | some v => exact hb _ v hvalue
    | none =>
      exact ihfallback fun v hv =>
        hs v (hv.trans ⟨opening ++ n ++ ['|'], d ++ closing ++ s, by simp⟩)

end Stencil.Template
