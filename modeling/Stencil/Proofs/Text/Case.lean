import Stencil.Text.Ascii

/-!
# Case

Making letters small changes capital letters only, so it changes no sign of markup, and a name in
small letters stays as it is.
-/

namespace Stencil.Ascii

theorem isUpper_iff {c : Char} : c.isUpper = true ↔ 65 ≤ c.val.toNat ∧ c.val.toNat ≤ 90 := by
  change decide (c.val ≥ 'A'.val ∧ c.val ≤ 'Z'.val) = true ↔ _
  rw [decide_eq_true_iff, ge_iff_le, UInt32.le_iff_toNat_le, UInt32.le_iff_toNat_le]
  exact Iff.rfl

theorem isLower_iff {c : Char} : c.isLower = true ↔ 97 ≤ c.val.toNat ∧ c.val.toNat ≤ 122 := by
  change (decide (c.val ≥ 'a'.val) && decide (c.val ≤ 'z'.val)) = true ↔ _
  rw [Bool.and_eq_true, decide_eq_true_iff, decide_eq_true_iff, ge_iff_le,
    UInt32.le_iff_toNat_le, UInt32.le_iff_toNat_le]
  exact Iff.rfl

theorem toLower_eq_self {c : Char} (h : c.isUpper = false) : c.toLower = c :=
  dif_neg (of_decide_eq_false h)

theorem isLower_toLower {c : Char} (h : c.isUpper = true) : c.toLower.isLower = true := by
  have hval : c.toLower.val = c.val + ('a'.val - 'A'.val) :=
    congrArg Char.val (dif_pos (of_decide_eq_true h))
  have hadd : (c.val + ('a'.val - 'A'.val)).toNat = c.val.toNat + 32 := by
    have hle := isUpper_iff.1 h
    rw [UInt32.toNat_add, show ('a'.val - 'A'.val).toNat = 32 from rfl]
    omega
  rw [isUpper_iff] at h
  rw [isLower_iff, hval, hadd]
  omega

theorem isUpper_of_isLower {c : Char} (h : c.isLower = true) : c.isUpper = false := by
  rw [isLower_iff] at h
  rw [← Bool.not_eq_true, isUpper_iff]
  omega

theorem isUpper_toLower (c : Char) : c.toLower.isUpper = false := by
  cases h : c.isUpper with
  | false => rwa [toLower_eq_self h]
  | true => exact isUpper_of_isLower (isLower_toLower h)

@[simp] theorem toLower_toLower (c : Char) : c.toLower.toLower = c.toLower :=
  toLower_eq_self (isUpper_toLower c)

theorem isAlpha_of_isUpper {c : Char} (h : c.isUpper = true) : c.isAlpha = true := by
  change (c.isUpper || c.isLower) = true
  rw [h, Bool.true_or]

theorem isAlpha_of_isLower {c : Char} (h : c.isLower = true) : c.isAlpha = true := by
  change (c.isUpper || c.isLower) = true
  rw [h, Bool.or_true]

theorem le_toNat_of_isAlphanum {c : Char} (h : c.isAlphanum = true) : 48 ≤ c.toNat := by
  change ((c.isUpper || c.isLower) || c.isDigit) = true at h
  rw [Bool.or_eq_true, Bool.or_eq_true] at h
  rcases h with (hupper | hlower) | hdigit
  · have hle := (isUpper_iff.1 hupper).1
    exact Nat.le_trans (by decide) hle
  · have hle := (isLower_iff.1 hlower).1
    exact Nat.le_trans (by decide) hle
  · change (decide (c.val ≥ '0'.val) && decide (c.val ≤ '9'.val)) = true at hdigit
    rw [Bool.and_eq_true, decide_eq_true_iff, decide_eq_true_iff] at hdigit
    exact UInt32.le_iff_toNat_le.1 hdigit.1

theorem isAlphanum_of_isHexDigit {c : Char} (h : isHexDigit c = true) : c.isAlphanum = true := by
  change (c.isAlpha || c.isDigit) = true
  simp only [isHexDigit, Bool.or_eq_true, Bool.and_eq_true, decide_eq_true_eq] at h
  rcases h with (hdigit | ⟨hlow, hhigh⟩) | ⟨hlow, hhigh⟩
  · rw [hdigit, Bool.or_true]
  · have hhigh := UInt32.le_iff_toNat_le.1 hhigh
    have hlower : c.isLower = true :=
      isLower_iff.2 ⟨UInt32.le_iff_toNat_le.1 hlow, Nat.le_trans hhigh (by decide)⟩
    rw [isAlpha_of_isLower hlower, Bool.true_or]
  · have hhigh := UInt32.le_iff_toNat_le.1 hhigh
    have hupper : c.isUpper = true :=
      isUpper_iff.2 ⟨UInt32.le_iff_toNat_le.1 hlow, Nat.le_trans hhigh (by decide)⟩
    rw [isAlpha_of_isUpper hupper, Bool.true_or]

theorem isAlpha_toLower {c : Char} (h : c.isAlpha = true) : c.toLower.isAlpha = true := by
  cases hc : c.isUpper with
  | false => rwa [toLower_eq_self hc]
  | true =>
    change (c.toLower.isUpper || c.toLower.isLower) = true
    rw [isLower_toLower hc, Bool.or_true]

theorem isAlpha_of_toLower {c : Char} (h : c.toLower.isAlpha = true) : c.isAlpha = true := by
  cases hc : c.isUpper with
  | false => rwa [toLower_eq_self hc] at h
  | true => exact isAlpha_of_isUpper hc

/-- A test that no letter passes gives the same answer on a character made small. -/
theorem toLower_of_letters {p : Char → Bool} (hp : ∀ c, c.isAlpha = true → p c = false) (c : Char) :
    p c.toLower = p c := by
  cases h : c.isUpper with
  | false => rw [toLower_eq_self h]
  | true =>
    have hc := isAlpha_of_isUpper h
    rw [hp c hc, hp _ (isAlpha_toLower hc)]

/-- A character that is no letter is made by no other. -/
theorem toLower_eq_iff {c d : Char} (hd : d.isAlpha = false) : c.toLower = d ↔ c = d := by
  have hp : ∀ c : Char, c.isAlpha = true → decide (c = d) = false := by
    intro c hc
    rw [decide_eq_false_iff_not]
    rintro rfl
    rw [hd] at hc
    cases hc
  simpa using toLower_of_letters hp c

@[simp] theorem lower_nil : lower [] = [] := rfl

@[simp] theorem lower_cons (c : Char) (t : Text) : lower (c :: t) = c.toLower :: lower t := rfl

@[simp] theorem lower_lower (t : Text) : lower (lower t) = lower t := by
  simp [lower, Function.comp_def]

@[simp] theorem length_lower (t : Text) : (lower t).length = t.length := List.length_map _

theorem sameName_lower (t : Text) : sameName t (lower t) = true := by
  rw [sameName, lower_lower, decide_eq_true rfl]

end Stencil.Ascii
