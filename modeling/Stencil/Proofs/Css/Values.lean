import Stencil.Css.Escape
import Stencil.Proofs.Html.Escape

/-!
# Values in a style sheet

A semicolon ends a declaration unless an odd run of backslashes stands in front of it (`Guarded`).
Values are written with every semicolon guarded, and with an even run of backslashes at their end,
so they do not guard what is written after them, and whoever reads the escapes reads the value
(`reads_escapeValue`). Brackets are escaped after that, and each escape of a bracket ends with a
semicolon that is not guarded (`guarded_escapeAngles`).
-/

namespace Stencil.Css

/-! ## Backslashes at the end -/

/-- How many backslashes a text ends with. -/
def trailingBackslashes (t : Text) : Nat := (t.reverse.takeWhile (· = '\\')).length

theorem trailingBackslashes_concat (t : Text) (c : Char) :
    trailingBackslashes (t ++ [c]) = if c = '\\' then trailingBackslashes t + 1 else 0 := by
  unfold trailingBackslashes
  rw [List.reverse_append, List.reverse_singleton, List.singleton_append, List.takeWhile_cons]
  by_cases hc : c = '\\'
  · simp [hc]
  · simp [hc]

/-- A run of backslashes that goes on after an even one stays as even or odd as it is. -/
theorem trailingBackslashes_append {u : Text} (hu : trailingBackslashes u % 2 = 0) (t : Text) :
    trailingBackslashes (u ++ t) % 2 = trailingBackslashes t % 2 := by
  unfold trailingBackslashes at *
  rw [List.reverse_append, List.takeWhile_append]
  split
  · next hall =>
    -- The text is one run of backslashes, so the run in front of it goes on to its end.
    rw [List.length_append, hall, Nat.add_mod, hu, Nat.add_zero, Nat.mod_mod]
  · rfl

/-- Forms that end with even runs make up a text that ends with one. -/
theorem trailingBackslashes_flatMap {f : Char → Text}
    (hf : ∀ c, trailingBackslashes (f c) % 2 = 0) (t : Text) :
    trailingBackslashes (t.flatMap f) % 2 = 0 := by
  induction t with
  | nil => rfl
  | cons c t ih => rw [List.flatMap_cons, trailingBackslashes_append (hf c), ih]

/-- In such a text a character that stands in no form but after one backslash stands after an odd
run. -/
theorem odd_of_flatMap {f : Char → Text} (hf : ∀ c, trailingBackslashes (f c) % 2 = 0) {x : Char}
    (hx : ∀ c front back, f c = front ++ x :: back → front = ['\\']) {t before after : Text}
    (h : t.flatMap f = before ++ x :: after) : trailingBackslashes before % 2 = 1 := by
  obtain ⟨u, c, v, front, back, rfl, hform, rfl⟩ := Text.eq_append_of_flatMap h
  rw [hx c front back hform, trailingBackslashes_append (trailingBackslashes_flatMap hf u)]
  rfl

theorem trailingBackslashes_valueForm (c : Char) : trailingBackslashes (valueForm c) % 2 = 0 := by
  unfold valueForm
  split
  · rfl
  · rfl
  · next hc _ =>
    have hnone : trailingBackslashes [c] = 0 :=
      (trailingBackslashes_concat [] c).trans (if_neg hc)
    rw [hnone]

theorem even_trailingBackslashes (t : Text) : trailingBackslashes (escapeValue t) % 2 = 0 :=
  trailingBackslashes_flatMap trailingBackslashes_valueForm t

/-! ## Guarded semicolons -/

/-- Whether each semicolon stands after an odd run of backslashes, so that none of them ends a
declaration. -/
def Guarded (t : Text) : Prop :=
  ∀ before after, t = before ++ ';' :: after → trailingBackslashes before % 2 = 1

/-- In the form of a character a semicolon stands after one backslash. -/
theorem valueForm_eq_append (c : Char) (front back : Text)
    (h : valueForm c = front ++ ';' :: back) : front = ['\\'] := by
  unfold valueForm at h
  split at h
  · have hmem : ';' ∈ "\\\\".toList := by simp [h]
    exact absurd hmem (by decide)
  · exact Text.eq_of_concat_eq_append (by decide) h
  · next _ hc =>
    have hmem : ';' ∈ [c] := by simp [h]
    exact absurd (List.mem_singleton.1 hmem).symm hc

theorem escapeValue_of_not_mem {t : Text} (hsemicolon : ';' ∉ t) (hbackslash : '\\' ∉ t) :
    escapeValue t = t := by
  apply Text.flatMap_eq_self
  intro c hc
  unfold valueForm
  split
  · exact absurd hc hbackslash
  · exact absurd hc hsemicolon
  · rfl

theorem not_mem_escapeValue {c : Char} (hc : c ≠ '\\') {t : Text} (ht : c ∉ t) :
    c ∉ escapeValue t := by
  intro h
  obtain ⟨d, hd, hform⟩ := List.mem_flatMap.1 h
  have hcd : c = d := by
    unfold valueForm at hform
    split at hform
    · simpa using hform
    · simpa [hc] using hform
    · simpa using hform
  exact ht (hcd ▸ hd)

/-- **No semicolon of a value ends a declaration.** -/
theorem guarded_escapeValue (t : Text) : Guarded (escapeValue t) := by
  intro before after h
  exact odd_of_flatMap trailingBackslashes_valueForm valueForm_eq_append h

/-! ## Reading values -/

/-- A text without the backslash in front of each character that is escaped, where a backslash and
the character after it are read as a pair, from left to right. -/
def dropEscapes : Text → Text
  | [] => []
  | [c] => [c]
  | c :: d :: t => if c = '\\' then d :: dropEscapes t else c :: dropEscapes (d :: t)

theorem dropEscapes_cons {c : Char} (hc : c ≠ '\\') (t : Text) :
    dropEscapes (c :: t) = c :: dropEscapes t := by
  cases t with
  | nil => rfl
  | cons d t => rw [dropEscapes, if_neg hc]

theorem unescape_cons {c : Char} (hc : c ≠ '\\') (t : Text) :
    unescape (c :: t) = c :: unescape t := by
  cases t with
  | nil => simp [unescape]
  | cons d t => rw [unescape, if_pos hc]

theorem dropEscapes_valueForm (c : Char) (rest : Text) :
    dropEscapes (valueForm c ++ rest) = c :: dropEscapes rest := by
  unfold valueForm
  split
  · rfl
  · rfl
  · next hc _ => exact dropEscapes_cons hc rest

/-- An escaped character is itself, if it neither starts a code point nor breaks a line. -/
theorem unescape_escaped {c : Char} (hhex : Ascii.isHexDigit c = false)
    (hbreak : (c = '\n' || c = '\r' || c = '\x0c') = false) (rest : Text) :
    unescape ('\\' :: c :: rest) = c :: unescape rest := by
  have hreturn : c ≠ '\r' := by
    rintro rfl
    cases hbreak
  rw [unescape, if_neg (by simp), if_neg (by simp [hhex]), if_neg (by simp [hreturn]),
    if_neg (by simp [hbreak])]

theorem unescape_valueForm (c : Char) (rest : Text) :
    unescape (valueForm c ++ rest) = c :: unescape rest := by
  unfold valueForm
  split
  · exact unescape_escaped (by decide) (by decide) rest
  · exact unescape_escaped (by decide) (by decide) rest
  · next hc _ => exact unescape_cons hc rest

/-- Texts are guarded together just when each is, if the first ends with an even run of
backslashes. -/
theorem guarded_append {u v : Text} (hu : trailingBackslashes u % 2 = 0) :
    Guarded (u ++ v) ↔ Guarded u ∧ Guarded v := by
  constructor
  · intro h
    constructor
    · rintro before after rfl
      exact h before (after ++ v) (by simp)
    · rintro before after rfl
      rw [← trailingBackslashes_append hu]
      exact h (u ++ before) after (by simp)
  · rintro ⟨hfirst, hsecond⟩ before after h
    rcases List.append_eq_append_iff.1 h with ⟨w, rfl, hv⟩ | ⟨w, rfl, hw⟩
    · rw [trailingBackslashes_append hu]
      exact hsecond w after hv
    · cases w with
      | nil =>
        have hodd := hsecond [] after hw.symm
        exact absurd hodd (by decide)
      | cons c w =>
        obtain ⟨rfl, -⟩ := List.cons.inj hw
        exact hfirst before w rfl

/-- **A value stands in a style as it is.** It is read back, every one of its semicolons is guarded,
and as it ends with an even run of backslashes, what follows it is read as if it stood alone. -/
theorem reads_escapeValue (t : Text) :
    (dropEscapes (escapeValue t) = t ∧ unescape (escapeValue t) = t) ∧
    Guarded (escapeValue t) ∧
    trailingBackslashes (escapeValue t) % 2 = 0 ∧
    ∀ rest, dropEscapes (escapeValue t ++ rest) = t ++ dropEscapes rest ∧
      unescape (escapeValue t ++ rest) = t ++ unescape rest ∧
      trailingBackslashes (escapeValue t ++ rest) % 2 = trailingBackslashes rest % 2 ∧
      (Guarded (escapeValue t ++ rest) ↔ Guarded rest) := by
  have heven := even_trailingBackslashes t
  have hdrop (rest : Text) : dropEscapes (escapeValue t ++ rest) = t ++ dropEscapes rest :=
    Text.read_flatMap_append dropEscapes_valueForm t rest
  have hunescape (rest : Text) : unescape (escapeValue t ++ rest) = t ++ unescape rest :=
    Text.read_flatMap_append unescape_valueForm t rest
  refine ⟨⟨?_, ?_⟩, guarded_escapeValue t, heven, ?_⟩
  · simpa [dropEscapes] using hdrop []
  · simpa [unescape] using hunescape []
  · intro rest
    refine ⟨hdrop rest, hunescape rest, trailingBackslashes_append heven rest, ?_⟩
    rw [guarded_append heven]
    exact and_iff_right (guarded_escapeValue t)

/-- A backslash of a value does not take the escape from a semicolon of the value. -/
example : escapeValue "red\\; top: 0".toList = "red\\\\\\; top: 0".toList := by decide

/-! ## Escaped brackets -/

theorem trailingBackslashes_append_escapeAngles {u v : Text}
    (h : trailingBackslashes u = trailingBackslashes v) (t : Text) :
    trailingBackslashes (u ++ Html.escapeAngles t) = trailingBackslashes (v ++ t) := by
  induction t generalizing u v with
  | nil => simpa [Html.escapeAngles] using h
  | cons c t ih =>
    have hform :
        trailingBackslashes (u ++ Html.angleForm c) = trailingBackslashes (v ++ [c]) := by
      unfold Html.angleForm
      split
      · change trailingBackslashes (u ++ ("&lt".toList ++ [';'])) = _
        rw [← List.append_assoc, trailingBackslashes_concat, trailingBackslashes_concat]
        rfl
      · change trailingBackslashes (u ++ ("&gt".toList ++ [';'])) = _
        rw [← List.append_assoc, trailingBackslashes_concat, trailingBackslashes_concat]
        rfl
      · rw [trailingBackslashes_concat, trailingBackslashes_concat, h]
    rw [Html.escapeAngles, List.flatMap_cons, ← List.append_assoc, ← List.singleton_append,
      ← List.append_assoc]
    exact ih hform

theorem trailingBackslashes_escapeAngles (t : Text) :
    trailingBackslashes (Html.escapeAngles t) = trailingBackslashes t :=
  trailingBackslashes_append_escapeAngles (u := []) (v := []) rfl t

/-- Where brackets are escaped in a guarded text, each semicolon is guarded or ends an escape. -/
theorem guarded_or_escape {t before after : Text} (ht : Guarded t)
    (h : Html.escapeAngles t = before ++ ';' :: after) :
    trailingBackslashes before % 2 = 1 ∨ "&lt".toList <:+ before ∨ "&gt".toList <:+ before := by
  obtain ⟨u, c, v, front, back, rfl, hform, rfl⟩ := Text.eq_append_of_flatMap h
  unfold Html.angleForm at hform
  split at hform
  · rw [Text.eq_of_concat_eq_append (u := "&lt".toList) (by decide) hform]
    exact .inr (.inl (List.suffix_append _ _))
  · rw [Text.eq_of_concat_eq_append (u := "&gt".toList) (by decide) hform]
    exact .inr (.inr (List.suffix_append _ _))
  · cases front with
    | nil =>
      obtain ⟨rfl, -⟩ := List.cons.inj hform
      rw [List.append_nil]
      exact .inl ((trailingBackslashes_escapeAngles u).symm ▸ ht u v rfl)
    | cons d front => simp at hform

/-- An escaped bracket ends with a semicolon that is not guarded. -/
theorem not_guarded_escapeAngles {t : Text} {c d : Char} (hc : c ∈ t)
    (hform : Html.angleForm c = ['&', d, 't', ';']) : ¬Guarded (Html.escapeAngles t) := by
  intro h
  obtain ⟨u, v, rfl⟩ := List.append_of_mem hc
  have hodd := h (Html.escapeAngles u ++ ['&', d] ++ ['t']) (Html.escapeAngles v)
    (by simp [Html.escapeAngles, hform])
  rw [trailingBackslashes_concat, if_neg (by decide)] at hodd
  exact absurd hodd (by decide)

/-- **Escaping brackets leaves a text guarded just when there are none.** -/
theorem guarded_escapeAngles {t : Text} (ht : Guarded t) :
    Guarded (Html.escapeAngles t) ↔ '<' ∉ t ∧ '>' ∉ t := by
  constructor
  · intro h
    constructor
    · intro hopen
      exact not_guarded_escapeAngles hopen rfl h
    · intro hclose
      exact not_guarded_escapeAngles hclose rfl h
  · rintro ⟨hopen, hclose⟩
    rw [Html.escapeAngles_of_not_mem hopen hclose]
    exact ht

end Stencil.Css
