import Stencil.Text.Ascii

/-!
# Hexadecimal digits

The hexadecimal digits of a number are read back as the number, with zeros before them or none
(`ofHex_replicate_append`), in small letters or in capitals (`ofHex_upper_toDigits`).
-/

namespace Stencil.Ascii

theorem hexValue_toUpper_digitChar {d : Nat} (hd : d < 16) :
    hexValue d.digitChar.toUpper = d ∧ isHexDigit d.digitChar.toUpper = true := by
  have hall : ∀ d : Fin 16, hexValue (Nat.digitChar d).toUpper = d ∧
      isHexDigit (Nat.digitChar d).toUpper = true := by decide
  exact hall ⟨d, hd⟩

theorem ofHex_concat (ds : Text) (d : Char) : ofHex (ds ++ [d]) = 16 * ofHex ds + hexValue d := by
  rw [ofHex, List.foldl_append]
  rfl

/-- Zeros in front are no part of the number. -/
theorem ofHex_replicate_append (n : Nat) (ds : Text) :
    ofHex (List.replicate n '0' ++ ds) = ofHex ds := by
  induction n with
  | zero => rfl
  | succ n ih =>
    rw [List.replicate_succ, List.cons_append, ← ih]
    rfl

/-- The capital digits of a number, by its last one. -/
theorem upper_toDigits (n : Nat) : (Nat.toDigits 16 n).map Char.toUpper =
    (if n < 16 then [] else (Nat.toDigits 16 (n / 16)).map Char.toUpper) ++
      [(n % 16).digitChar.toUpper] := by
  rw [Nat.toDigits_eq_if (by decide)]
  split
  · next h => rw [Nat.mod_eq_of_lt h, List.map_singleton, List.nil_append]
  · rw [List.map_append, List.map_singleton]

theorem ofHex_upper_toDigits (n : Nat) : ofHex ((Nat.toDigits 16 n).map Char.toUpper) = n := by
  induction n using Nat.strongRecOn with
  | ind n ih =>
    have hdigit := (hexValue_toUpper_digitChar (Nat.mod_lt n (by decide : 0 < 16))).1
    rw [upper_toDigits, ofHex_concat, hdigit]
    split
    · next h =>
      change 0 + n % 16 = n
      omega
    · next h =>
      rw [ih (n / 16) (by omega)]
      omega

theorem isHexDigit_of_mem_upper_toDigits {n : Nat} {c : Char}
    (h : c ∈ (Nat.toDigits 16 n).map Char.toUpper) : isHexDigit c = true := by
  induction n using Nat.strongRecOn with
  | ind n ih =>
    rw [upper_toDigits, List.mem_append, List.mem_singleton] at h
    rcases h with h | rfl
    · split at h
      · cases h
      · exact ih (n / 16) (by omega) h
    · exact (hexValue_toUpper_digitChar (Nat.mod_lt n (by decide : 0 < 16))).2

end Stencil.Ascii
