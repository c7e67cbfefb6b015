import Stencil.Proofs.Text.Digits
import Stencil.Proofs.Text.Forms
import Stencil.Proofs.Text.Search
import Stencil.Stash

/-!
# Markers

A pass over a text replaces each marker of a stored piece by the piece (`resolveOnce_marker_append`)
and leaves the text between markers as it is (`resolveOnce_text_append`). It goes on behind the
marker, so what is replaced does not run into what follows. The number in a marker is read back
whatever its size, since its digits hold no hyphen and the end of a marker starts with one.
-/

namespace Stencil.Stash

/-! ## Passes -/

section

variable (s : Stash)

theorem resolveOnce_cons {c : Char} {cs : Text} (h : head.isPrefixOf? (c :: cs) = none) :
    s.resolveOnce (c :: cs) = c :: s.resolveOnce cs := by
  rw [resolveOnce]
  split
  · rfl
  · next h' =>
    rw [h] at h'
    cases h'

theorem resolveOnce_marker {c : Char} {cs rest : Text}
    (h : head.isPrefixOf? (c :: cs) = some rest) :
    s.resolveOnce (c :: cs) = match s.read? rest with
      | some (item, after) => item ++ s.resolveOnce after
      | none => head ++ s.resolveOnce rest := by
  rw [resolveOnce]
  split
  · next h' =>
    rw [h] at h'
    cases h'
  · next h' =>
    rw [h] at h'
    cases h'
    split
    · next hread => simp only [hread]
    · next hread => simp only [hread]

theorem resolveOnce_of_cut?_none {t : Text} (h : Text.cut? head t = none) :
    s.resolveOnce t = t := by
  induction t with
  | nil => rw [resolveOnce]
  | cons c cs ih =>
    unfold Text.cut? at h
    split at h
    · cases h
    · next hprefix => rw [resolveOnce_cons s hprefix, ih (Option.map_eq_none_iff.1 h)]

theorem resolveOnce_of_cut? {t before rest : Text}
    (h : Text.cut? head t = some (before, rest)) :
    s.resolveOnce t = before ++ match s.read? rest with
      | some (item, after) => item ++ s.resolveOnce after
      | none => head ++ s.resolveOnce rest := by
  induction t generalizing before rest with
  | nil => cases h
  | cons c cs ih =>
    unfold Text.cut? at h
    split at h
    · next hprefix =>
      cases h
      exact resolveOnce_marker s hprefix
    · next hprefix =>
      obtain ⟨⟨b, r⟩, hcut, he⟩ := Option.map_eq_some_iff.1 h
      cases he
      rw [resolveOnce_cons s hprefix, ih hcut, List.cons_append]

theorem resolveWithin_eq_self {t : Text} (h : s.resolveOnce t = t) (n : Nat) :
    s.resolveWithin n t = t := by
  cases n with
  | zero => rfl
  | succ n => rw [resolveWithin, h, if_pos rfl]

/-- Stopping at a text that does not change makes no difference. -/
theorem resolveWithin_succ (n : Nat) (t : Text) :
    s.resolveWithin (n + 1) t = s.resolveWithin n (s.resolveOnce t) := by
  rw [resolveWithin]
  split
  · next h => rw [h, resolveWithin_eq_self s h]
  · rfl

end

/-! ## Nothing to replace -/

theorem read?_empty (t : Text) : ({} : Stash).read? t = none := by
  simp [read?]

theorem resolveOnce_empty (t : Text) : ({} : Stash).resolveOnce t = t := by
  fun_induction resolveOnce ({} : Stash) t with
  | case1 => rfl
  | case2 c cs _ ih => rw [ih]
  | case3 c cs t _ _ item after hread =>
    rw [read?_empty] at hread
    cases hread
  | case4 c cs t hhead _ _ ih => rw [ih, Text.eq_append_of_isPrefixOf? hhead]

theorem resolve_empty (t : Text) : ({} : Stash).resolve t = t :=
  resolveWithin_eq_self _ (resolveOnce_empty t) maxPasses

/-- What every marker starts and ends with. -/
def delimiter : Char := '\x7f'

theorem resolveOnce_text_append (s : Stash) {t : Text} (ht : delimiter ∉ t) (rest : Text) :
    s.resolveOnce (t ++ rest) = t ++ s.resolveOnce rest := by
  apply Text.copy_append ?_ ht
  intro c hc rest
  have hhead : head.isPrefixOf? (c :: rest) = none := if_neg fun h => hc (eq_of_beq h).symm
  exact resolveOnce_cons s hhead

theorem resolve_of_not_mem (s : Stash) {t : Text} (ht : delimiter ∉ t) : s.resolve t = t := by
  apply resolveWithin_eq_self
  have hpass := resolveOnce_text_append s ht []
  rwa [List.append_nil, resolveOnce, List.append_nil] at hpass

/-! ## Markers of stored pieces -/

theorem isHexDigit_of_mem_number {n : Nat} {c : Char} (h : c ∈ number n) :
    Ascii.isHexDigit c = true := by
  rw [number, List.mem_append] at h
  rcases h with h | h
  · rw [List.eq_of_mem_replicate h]
    rfl
  · exact Ascii.isHexDigit_of_mem_upper_toDigits h

/-- **The number of a marker is read back**, whatever its size. -/
theorem number?_number (n : Nat) : number? (number n) = some n := by
  have hne : number n ≠ [] := by
    simp [number, Nat.toDigits_ne_nil]
  have hplus : ∀ ds, number n ≠ '+' :: ds := by
    intro ds h
    have hdigit := isHexDigit_of_mem_number (h ▸ List.mem_cons_self : '+' ∈ number n)
    exact absurd hdigit (by decide)
  have hall : (number n).all Ascii.isHexDigit = true :=
    List.all_eq_true.2 fun c hc => isHexDigit_of_mem_number hc
  have hvalue : Ascii.ofHex (number n) = n :=
    (Ascii.ofHex_replicate_append _ _).trans (Ascii.ofHex_upper_toDigits n)
  rw [number?, if_pos ⟨hne, hall⟩, hvalue]
  exact hplus

theorem cut?_number (n : Nat) (rest : Text) :
    Text.cut? tail (number n ++ (tail ++ rest)) = some (number n, rest) := by
  have hhyphen : '-' ∉ number n := fun h => absurd (isHexDigit_of_mem_number h) (by decide)
  have hnumber := Text.cut?_eq_none_of_not_mem (by decide : '-' ∈ tail) hhyphen
  exact Text.cut?_append (by decide) hnumber rest

/-- **A pass replaces a marker by its piece**, and goes on behind the marker. -/
theorem resolveOnce_marker_append {s : Stash} {n : Nat} {item : Text} (h : s.items[n]? = some item)
    (rest : Text) : s.resolveOnce (marker n ++ rest) = item ++ s.resolveOnce rest := by
  have hhead : head.isPrefixOf? (marker n ++ rest) = some (number n ++ (tail ++ rest)) := by
    rw [marker, List.append_assoc, List.append_assoc, Text.isPrefixOf?_append]
  have hread : s.read? (number n ++ (tail ++ rest)) = some (item, rest) := by
    rw [read?, cut?_number]
    simp only [Option.bind_eq_bind, Option.bind_some, number?_number, h]
    rfl
  cases hmarker : marker n ++ rest with
  | nil =>
    rw [hmarker] at hhead
    cases hhead
  | cons c cs =>
    rw [hmarker] at hhead
    rw [resolveOnce_marker s hhead, hread]

end Stencil.Stash
