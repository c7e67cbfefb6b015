import Stencil.Html.Escape
import Stencil.Html.Reference
import Stencil.Proofs.Text.Forms

/-!
# Escaping and decoding

Decoding takes escaping back (`decode_escapeText`, `decode_escapeAttribute`), escaped text holds no
angle bracket and an escaped value no double quote, neither holds a no-break space, and decoding
never makes a text empty.
-/

namespace Stencil.Html

namespace Reference

@[simp] theorem decode_nil : decode [] = [] := by rw [decode]

theorem decode_cons {c : Char} (h : c ≠ '&') (t : Text) : decode (c :: t) = c :: decode t := by
  rw [decode, if_neg h]

theorem decode_of_read? {t meaning rest : Text} (h : read? t = some (meaning, rest)) :
    decode ('&' :: t) = meaning ++ decode rest := by
  rw [decode, if_pos rfl]
  split
  · next he =>
    rw [h] at he
    cases he
    rfl
  · next he =>
    rw [h] at he
    cases he

theorem decode_of_read?_none {t : Text} (h : read? t = none) :
    decode ('&' :: t) = '&' :: decode t := by
  rw [decode, if_pos rfl]
  split
  · next he =>
    rw [h] at he
    cases he
  · rfl

theorem decode_named (name meaning : Text) (hname : ∀ c ∈ name, c.isAlphanum = true)
    (h : named.lookup name = some meaning) (t : Text) :
    decode ('&' :: (name ++ ';' :: t)) = meaning ++ decode t := by
  have hdrop : (name ++ ';' :: t).dropWhile Char.isAlphanum = ';' :: t := by
    rw [List.dropWhile_append_of_pos hname]
    rfl
  have htake : (name ++ ';' :: t).takeWhile Char.isAlphanum = name := by
    rw [List.takeWhile_append_of_pos hname, List.takeWhile_cons_of_neg (by decide),
      List.append_nil]
  have hread : read? (name ++ ';' :: t) = some (meaning, t) := by
    have hlookup : name? (name ++ ';' :: t) = some (meaning, t) := by
      rw [name?, hdrop, htake, h]
      rfl
    -- A name starts with no number sign, so no numeric reference is read.
    have hsign (u : Text) : name ++ ';' :: t ≠ '#' :: u := by
      intro he
      cases name with
      | nil => cases he
      | cons c cs =>
        obtain ⟨rfl, -⟩ := List.cons.inj he
        exact absurd (hname '#' List.mem_cons_self) (by decide)
    unfold read?
    split
    · next he => exact absurd he (hsign _)
    · next he => exact absurd he (hsign _)
    · next he => exact absurd he (hsign _)
    · exact hlookup
  exact decode_of_read? hread

/-- The references that escaping writes, and what they stand for. -/
def written : List (Text × Char) :=
  [("amp".toList, '&'), ("lt".toList, '<'), ("gt".toList, '>'), ("quot".toList, '"'),
    ("nbsp".toList, '\u00A0')]

theorem named_of_written : ∀ r ∈ written,
    r.1.all Char.isAlphanum = true ∧ named.lookup r.1 = some [r.2] := by
  decide +kernel

theorem decode_written {name : Text} {c : Char} (h : (name, c) ∈ written) (t : Text) :
    decode ('&' :: (name ++ ';' :: t)) = c :: decode t := by
  obtain ⟨hname, hlookup⟩ := named_of_written _ h
  exact decode_named name [c] (List.all_eq_true.1 hname) hlookup t

theorem decode_textForm (c : Char) (t : Text) : decode (textForm c ++ t) = c :: decode t := by
  unfold textForm
  split
  · exact decode_written (.head _) t
  · exact decode_written (.tail _ (.head _)) t
  · exact decode_written (.tail _ (.tail _ (.head _))) t
  · exact decode_written (.tail _ (.tail _ (.tail _ (.tail _ (.head _))))) t
  · next hamp _ _ _ => exact decode_cons (fun h => hamp h) t

theorem decode_attributeForm (c : Char) (t : Text) :
    decode (attributeForm c ++ t) = c :: decode t := by
  unfold attributeForm
  split
  · exact decode_written (.head _) t
  · exact decode_written (.tail _ (.tail _ (.tail _ (.head _)))) t
  · exact decode_written (.tail _ (.tail _ (.tail _ (.tail _ (.head _))))) t
  · next hamp _ _ => exact decode_cons (fun h => hamp h) t

/-- **Decoding takes the escaping of text back**, whatever follows. -/
theorem decode_escapeText_append (t rest : Text) :
    decode (escapeText t ++ rest) = t ++ decode rest :=
  Text.read_flatMap_append decode_textForm t rest

/-- **Decoding takes the escaping of a value back**, whatever follows. -/
theorem decode_escapeAttribute_append (t rest : Text) :
    decode (escapeAttribute t ++ rest) = t ++ decode rest :=
  Text.read_flatMap_append decode_attributeForm t rest

@[simp] theorem decode_escapeText (t : Text) : decode (escapeText t) = t := by
  simpa using decode_escapeText_append t []

@[simp] theorem decode_escapeAttribute (t : Text) : decode (escapeAttribute t) = t := by
  simpa using decode_escapeAttribute_append t []

/-! ### Decoding keeps something -/

theorem ne_nil_of_numeric? {isDigit : Char → Bool} {n : Nat} {value : Text → Nat} {t d r : Text}
    (h : numeric? isDigit n value t = some (d, r)) : d ≠ [] := by
  unfold numeric? at h
  split at h
  · dsimp only at h
    split at h
    · cases h
    · obtain ⟨c, _, he⟩ := Option.map_eq_some_iff.1 h
      cases he
      exact List.cons_ne_nil c []
  · cases h

theorem ne_nil_of_lookup {name meaning : Text} (h : named.lookup name = some meaning) :
    meaning ≠ [] := by
  have hall : ∀ p ∈ named, p.2 ≠ [] := by decide
  obtain ⟨l₁, l₂, he, -⟩ := List.lookup_eq_some_iff.1 h
  exact hall (name, meaning) (by rw [he]; simp)

theorem ne_nil_of_read? {t d r : Text} (h : read? t = some (d, r)) : d ≠ [] := by
  unfold read? at h
  split at h
  · exact ne_nil_of_numeric? h
  · exact ne_nil_of_numeric? h
  · exact ne_nil_of_numeric? h
  · unfold name? at h
    split at h
    · obtain ⟨m, hm, he⟩ := Option.map_eq_some_iff.1 h
      cases he
      exact ne_nil_of_lookup hm
    · cases h

theorem decode_ne_nil {t : Text} (h : t ≠ []) : decode t ≠ [] := by
  cases t with
  | nil => exact absurd rfl h
  | cons c cs =>
    rw [decode]
    split
    · split
      · next hread => exact List.append_ne_nil_of_left_ne_nil (ne_nil_of_read? hread) _
      · exact List.cons_ne_nil _ _
    · exact List.cons_ne_nil _ _

end Reference

/-! ### What is escaped holds no markup -/

@[simp] theorem escapeText_nil : escapeText [] = [] := rfl

theorem escapeText_append (s t : Text) : escapeText (s ++ t) = escapeText s ++ escapeText t :=
  List.flatMap_append

theorem textForm_ne_nil (c : Char) : textForm c ≠ [] := by
  unfold textForm
  split <;> simp

theorem not_mem_escapeText {b : Char} (hb : b = '<' ∨ b = '>' ∨ b = '\u00A0') (t : Text) :
    b ∉ escapeText t := by
  intro h
  obtain ⟨c, -, hc⟩ := List.mem_flatMap.1 h
  revert hc
  unfold textForm
  split
  · rcases hb with rfl | rfl | rfl <;> decide
  · rcases hb with rfl | rfl | rfl <;> decide
  · rcases hb with rfl | rfl | rfl <;> decide
  · rcases hb with rfl | rfl | rfl <;> decide
  · next hlt hgt hspace =>
    intro hc
    obtain rfl := List.mem_singleton.1 hc
    rcases hb with hb | hb | hb
    · exact hlt hb
    · exact hgt hb
    · exact hspace hb

theorem not_mem_escapeAttribute {b : Char} (hb : b = '"' ∨ b = '\u00A0') (t : Text) :
    b ∉ escapeAttribute t := by
  intro h
  obtain ⟨c, -, hc⟩ := List.mem_flatMap.1 h
  revert hc
  unfold attributeForm
  split
  · rcases hb with rfl | rfl <;> decide
  · rcases hb with rfl | rfl <;> decide
  · rcases hb with rfl | rfl <;> decide
  · next hquote hspace =>
    intro hc
    obtain rfl := List.mem_singleton.1 hc
    exact hb.elim hquote hspace

theorem not_mem_escapeAngles {b : Char} (hb : b = '<' ∨ b = '>') (t : Text) :
    b ∉ escapeAngles t := by
  intro h
  obtain ⟨c, -, hc⟩ := List.mem_flatMap.1 h
  revert hc
  unfold angleForm
  split
  · rcases hb with rfl | rfl <;> decide
  · rcases hb with rfl | rfl <;> decide
  · next hlt hgt =>
    intro hc
    obtain rfl := List.mem_singleton.1 hc
    exact hb.elim hlt hgt

theorem bracket_not_mem_escapeText (t : Text) : '<' ∉ escapeText t :=
  not_mem_escapeText (.inl rfl) t

theorem bracket_not_mem_escapeAngles (t : Text) : '<' ∉ escapeAngles t :=
  not_mem_escapeAngles (.inl rfl) t

theorem escapeAngles_append (s t : Text) :
    escapeAngles (s ++ t) = escapeAngles s ++ escapeAngles t :=
  List.flatMap_append

theorem escapeAngles_of_not_mem {t : Text} (hopen : '<' ∉ t) (hclose : '>' ∉ t) :
    escapeAngles t = t := by
  apply Text.flatMap_eq_self
  intro c hc
  unfold angleForm
  split
  · exact absurd hc hopen
  · exact absurd hc hclose
  · rfl

theorem quote_not_mem_escapeAttribute (t : Text) : '"' ∉ escapeAttribute t :=
  not_mem_escapeAttribute (.inl rfl) t

theorem head?_textForm (c : Char) : (textForm c).head? = some '\n' ↔ c = '\n' := by
  unfold textForm
  split
  · decide
  · decide
  · decide
  · decide
  · exact ⟨fun h => Option.some.inj h, fun h => congrArg some h⟩

theorem head?_escapeText (t : Text) :
    (escapeText t).head? = some '\n' ↔ t.head? = some '\n' := by
  cases t with
  | nil => rfl
  | cons c t =>
    have hhead : (escapeText (c :: t)).head? = (textForm c).head? := by
      rw [escapeText, List.flatMap_cons, List.head?_append]
      cases h : textForm c with
      | nil => exact absurd h (textForm_ne_nil c)
      | cons d ds => rfl
    rw [hhead, head?_textForm, List.head?_cons, Option.some.injEq]

end Stencil.Html
