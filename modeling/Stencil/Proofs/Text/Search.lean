import Stencil.Text.Search

/-!
# Searching

What a search says about the text it splits: a run that ends at the first character outside it is
read whole, and nothing before the first occurrence of a needle holds one. What is written between a
text and the needle that ends it is cut out again (`cut?_append`).
-/

namespace Stencil.Text

/-! ### Runs -/

theorem of_mem_takeWhile {p : Char → Bool} {t : Text} {c : Char} (h : c ∈ t.takeWhile p) :
    p c = true :=
  List.all_eq_true.1 List.all_takeWhile c h

theorem takeWhile_run {p : Char → Bool} {s : Text} (hs : ∀ c ∈ s, p c = true) {t : Text}
    (ht : t.head?.all (fun c => !p c) = true) : (s ++ t).takeWhile p = s := by
  rw [List.takeWhile_append_of_pos hs]
  cases t with
  | nil => simp
  | cons c cs =>
    have hc : p c = false := by simpa using ht
    rw [List.takeWhile_cons_of_neg (by simp [hc]), List.append_nil]

theorem dropWhile_run {p : Char → Bool} {s : Text} (hs : ∀ c ∈ s, p c = true) {t : Text}
    (ht : t.head?.all (fun c => !p c) = true) : (s ++ t).dropWhile p = t := by
  rw [List.dropWhile_append_of_pos hs]
  cases t with
  | nil => rfl
  | cons c cs =>
    have hc : p c = false := by simpa using ht
    rw [List.dropWhile_cons_of_neg (by simp [hc])]

/-- No run goes on in a text that starts outside it. -/
theorem takeWhile_append_of_head {p : Char → Bool} {t : Text}
    (ht : t.head?.all (fun c => !p c) = true) (s : Text) :
    (s ++ t).takeWhile p = s.takeWhile p := by
  induction s with
  | nil => exact takeWhile_run (s := []) (by simp) ht
  | cons c s ih =>
    rw [List.cons_append, List.takeWhile_cons, List.takeWhile_cons, ih]

theorem dropWhile_append_of_head {p : Char → Bool} {t : Text}
    (ht : t.head?.all (fun c => !p c) = true) (s : Text) :
    (s ++ t).dropWhile p = s.dropWhile p ++ t := by
  induction s with
  | nil => exact dropWhile_run (s := []) (by simp) ht
  | cons c s ih =>
    rw [List.cons_append, List.dropWhile_cons, List.dropWhile_cons, ih]
    split
    · rfl
    · rfl

/-! ### Needles -/

theorem isPrefixOf?_eq_some_iff {s t r : Text} : s.isPrefixOf? t = some r ↔ t = s ++ r :=
  ⟨eq_append_of_isPrefixOf?, fun h => h ▸ isPrefixOf?_append s r⟩

theorem cut?_before {needle t before after : Text} (hn : needle ≠ [])
    (h : cut? needle t = some (before, after)) : cut? needle before = none := by
  induction t generalizing before after with
  | nil => simp [cut?, hn] at h
  | cons c cs ih =>
    simp only [cut?] at h
    split at h
    · cases h
      simp [cut?, hn]
    · next hp =>
      obtain ⟨⟨b, a⟩, hb, he⟩ := Option.map_eq_some_iff.1 h
      cases he
      have hcs := eq_of_cut? hb
      have hpb : needle.isPrefixOf? (c :: b) = none := by
        cases hpb : needle.isPrefixOf? (c :: b) with
        | none => rfl
        | some r =>
          have hfound : needle.isPrefixOf? (c :: cs) = some (r ++ (needle ++ a)) := by
            rw [isPrefixOf?_eq_some_iff, ← List.append_assoc, ← isPrefixOf?_eq_some_iff.1 hpb, hcs]
            simp
          rw [hp] at hfound
          cases hfound
      simp [cut?, hpb, ih hb]

theorem cut?_eq_none_of_not_mem {needle t : Text} {c : Char} (hc : c ∈ needle) (ht : c ∉ t) :
    cut? needle t = none := by
  cases h : cut? needle t with
  | none => rfl
  | some p =>
    have hp := eq_of_cut? (show cut? needle t = some (p.1, p.2) from h)
    rw [hp] at ht
    simp [hc] at ht

theorem not_infix_of_cut?_none {needle t : Text} (h : cut? needle t = none) :
    ¬needle <:+: t := by
  induction t with
  | nil =>
    unfold cut? at h
    split at h
    · cases h
    · next hneedle => exact fun hinfix => hneedle (List.infix_nil.1 hinfix)
  | cons c cs ih =>
    unfold cut? at h
    split at h
    · cases h
    · next hprefix =>
      rw [List.infix_cons_iff]
      rintro (⟨rest, hrest⟩ | hinfix)
      · rw [isPrefixOf?_eq_some_iff.2 hrest.symm] at hprefix
        cases hprefix
      · exact ih (Option.map_eq_none_iff.1 h) hinfix

/-- A needle none of whose ends starts it again does not start in a text and run out of it into
another needle. -/
theorem isPrefixOf?_append_eq_none {needle s : Text} (hneedle : ∀ k < needle.length, 0 < k →
    ¬needle.drop k <+: needle) (hs : s ≠ []) (h : needle.isPrefixOf? s = none) (rest : Text) :
    needle.isPrefixOf? (s ++ (needle ++ rest)) = none := by
  apply Option.eq_none_iff_forall_ne_some.2
  intro r hr
  have hstarts : ¬needle <+: s := by
    rintro ⟨after, hafter⟩
    rw [isPrefixOf?_eq_some_iff.2 hafter.symm] at h
    cases h
  rcases List.append_eq_append_iff.1 (isPrefixOf?_eq_some_iff.1 hr) with
    ⟨overlap, hoverlap, hrest⟩ | ⟨overlap, hoverlap, -⟩
  · have hlength : needle.length = s.length + overlap.length := by rw [hoverlap, List.length_append]
    have hoverlap' : overlap <+: needle :=
      List.prefix_of_prefix_length_le ⟨r, hrest.symm⟩ ⟨rest, rfl⟩ (by omega)
    cases overlap with
    | nil => exact hstarts ⟨[], by rw [hoverlap, List.append_nil, List.append_nil]⟩
    | cons d overlap =>
      have hdrop : needle.drop s.length = d :: overlap := by rw [hoverlap, List.drop_left]
      rw [List.length_cons] at hlength
      exact hneedle s.length (by omega) (List.length_pos_iff.2 hs) (hdrop ▸ hoverlap')
  · exact hstarts ⟨overlap, hoverlap.symm⟩

/-- Such a needle is found where it is written, after a text that does not hold it. -/
theorem cut?_append {needle t : Text} (hneedle : ∀ k < needle.length, 0 < k →
    ¬needle.drop k <+: needle) (ht : cut? needle t = none) (rest : Text) :
    cut? needle (t ++ (needle ++ rest)) = some (t, rest) := by
  induction t with
  | nil =>
    cases needle with
    | nil => simp [cut?] at ht
    | cons c cs =>
      rw [List.nil_append, List.cons_append, cut?, ← List.cons_append, isPrefixOf?_append]
  | cons c cs ih =>
    unfold cut? at ht
    split at ht
    · cases ht
    · next hfirst =>
      have hnone := isPrefixOf?_append_eq_none hneedle (List.cons_ne_nil c cs) hfirst rest
      rw [List.cons_append] at hnone ⊢
      rw [cut?, hnone, ih (Option.map_eq_none_iff.1 ht)]
      rfl

end Stencil.Text
