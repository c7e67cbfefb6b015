import Stencil.Html.Reference
import Stencil.Proofs.Css.Values
import Stencil.Proofs.Text.Case
import Stencil.Script.Literal

/-!
# Reading literals

A literal is written in two passes: the text is quoted as JSON quotes it (`Quotes`), and then the
signs of markup and the two line separators are written as code points (`inert`). The second pass
never changes what the first one wrote after a backslash, so every character is written as itself or
as an escape of it (`Written`). From this follows all that a literal promises (`IsLiteral`): it is
read back, no double quote ends it early, and it holds nothing that a script or markup would
read in another way.
-/

namespace Stencil.Script

open Css (trailingBackslashes)
open Html.Reference (scalar?)

/-! ## The reader -/

/-- The characters that stand after a backslash for themselves or for a control character. -/
def shortEscapes : List (Char × Char) :=
  [('"', '"'), ('\\', '\\'), ('/', '/'), ('b', '\x08'), ('f', '\x0c'), ('n', '\n'), ('r', '\r'),
    ('t', '\t')]

/-- Reads the four digits of a code unit. -/
def codeUnit? : Text → Option (Nat × Text)
  | a :: b :: c :: d :: t =>
    if [a, b, c, d].all Ascii.isHexDigit then some (Ascii.ofHex [a, b, c, d], t) else none
  | _ => none

/-- Reads a character that is written as code units, after the first backslash and its `u`: as one
unit, or as two where the first is the first half of a pair. -/
def codePoint? (t : Text) : Option (Char × Text) :=
  match codeUnit? t with
  | none => none
  | some (unit, rest) =>
    if 0xD800 ≤ unit ∧ unit < 0xDC00 then
      match rest with
      | '\\' :: 'u' :: rest =>
        match codeUnit? rest with
        | none => none
        | some (half, rest) =>
          if 0xDC00 ≤ half ∧ half < 0xE000 then
            (scalar? (0x10000 + 0x400 * (unit - 0xD800) + (half - 0xDC00))).map fun c => (c, rest)
          else none
      | _ => none
    else (scalar? unit).map fun c => (c, rest)

/-- Reads an escape after its backslash. -/
def escape? : Text → Option (Char × Text)
  | [] => none
  | c :: t => if c = 'u' then codePoint? t else (shortEscapes.lookup c).map fun d => (d, t)

/-- Reads one character of a literal. A double quote and a control character do not stand in one as
they are. -/
def character? : Text → Option (Char × Text)
  | [] => none
  | c :: t =>
    if c = '\\' then escape? t else if c = '"' ∨ c.toNat < 0x20 then none else some (c, t)

theorem length_of_codeUnit? {t rest : Text} {n : Nat} (h : codeUnit? t = some (n, rest)) :
    rest.length < t.length := by
  unfold codeUnit? at h
  split at h
  · split at h
    · cases h
      simp only [List.length_cons]
      omega
    · cases h
  · cases h

theorem length_of_codePoint? {t rest : Text} {c : Char} (h : codePoint? t = some (c, rest)) :
    rest.length < t.length := by
  unfold codePoint? at h
  split at h
  · cases h
  · next hunit =>
    have hlt := length_of_codeUnit? hunit
    split at h
    · split at h
      · split at h
        · cases h
        · next hhalf =>
          have hhalf := length_of_codeUnit? hhalf
          split at h
          · obtain ⟨d, -, he⟩ := Option.map_eq_some_iff.1 h
            cases he
            simp only [List.length_cons] at hlt
            omega
          · cases h
      · cases h
    · obtain ⟨d, -, he⟩ := Option.map_eq_some_iff.1 h
      cases he
      exact hlt

theorem length_of_character? {t rest : Text} {c : Char} (h : character? t = some (c, rest)) :
    rest.length < t.length := by
  unfold character? at h
  split at h
  · cases h
  · split at h
    · unfold escape? at h
      split at h
      · cases h
      · split at h
        · have hlt := length_of_codePoint? h
          simp only [List.length_cons]
          omega
        · obtain ⟨d, -, he⟩ := Option.map_eq_some_iff.1 h
          cases he
          simp only [List.length_cons]
          omega
    · split at h
      · cases h
      · cases h
        simp

/-- Reads a literal after its opening quote, up to the quote that ends it. -/
def body? (t : Text) : Option Text :=
  if t = ['"'] then some []
  else
    match h : character? t with
    | none => none
    | some (c, rest) =>
      have := length_of_character? h
      (body? rest).map (c :: ·)
termination_by t.length

/-- The text that a literal denotes, read as a string of JSON. -/
def read? : Text → Option Text
  | '"' :: t => body? t
  | _ => none

theorem body?_of_character? {t rest : Text} {c : Char} (h : character? t = some (c, rest)) :
    body? t = (body? rest).map (c :: ·) := by
  have hquote : t ≠ ['"'] := by
    rintro rfl
    simp [character?] at h
  rw [body?, if_neg hquote]
  split
  · next he =>
    rw [h] at he
    cases he
  · next he =>
    rw [h] at he
    cases he
    rfl

/-! ## The two passes -/

/-- Whether JSON escapes a character. -/
def mustEscape (c : Char) : Bool := c = '"' || c = '\\' || c.toNat < 0x20

/-- An escape of a character: a short one, or the four digits of its code point. -/
inductive IsEscape (c : Char) : Text → Prop where
  | short {l : Char} (h : shortEscapes.lookup l = some c) : IsEscape c ['\\', l]
  | code {a₁ a₂ a₃ a₄ : Char} (hdigits : [a₁, a₂, a₃, a₄].all Ascii.isHexDigit = true)
      (hvalue : Ascii.ofHex [a₁, a₂, a₃, a₄] = c.toNat) : IsEscape c ['\\', 'u', a₁, a₂, a₃, a₄]

/-- Whether texts are quoted as JSON documents it: a double quote, a backslash and a control
character are escaped, and every other character is left as it is. -/
def Quotes (quote : Text → Text) : Prop :=
  ∃ form : Char → Text, (∀ t, quote t = '"' :: t.flatMap form ++ ['"']) ∧
    (∀ c, mustEscape c = true → IsEscape c (form c)) ∧ ∀ c, mustEscape c = false → form c = [c]

/-- The characters that a quoted text may hold, but a literal may not: signs of markup and line
separators. -/
def signs : Text := ['<', '>', '&', '\u2028', '\u2029']

/-- A character of a quoted text, with signs written as code points. -/
def inertForm : Char → Text
  | '<' => "\\u003C".toList
  | '>' => "\\u003E".toList
  | '&' => "\\u0026".toList
  | '\u2028' => "\\u2028".toList
  | '\u2029' => "\\u2029".toList
  | c => [c]

/-- A quoted text with its signs written as code points. -/
def inert (t : Text) : Text := t.flatMap inertForm

/-- A character as JSON writes it, with the shortest escape. -/
def quotedForm (c : Char) : Text :=
  match c with
  | '"' => "\\\"".toList
  | '\\' => "\\\\".toList
  | '\x08' => "\\b".toList
  | '\t' => "\\t".toList
  | '\n' => "\\n".toList
  | '\x0c' => "\\f".toList
  | '\r' => "\\r".toList
  | c => if c.toNat < 0x20 then "\\u00".toList ++ byteDigits c.toNat else [c]

/-- A text as JSON quotes it. -/
def quoted (t : Text) : Text := '"' :: t.flatMap quotedForm ++ ['"']

/-- What a literal of a text promises. -/
structure IsLiteral (t w : Text) : Prop where
  denotes : read? w = some t
  /-- It is quoted, and each double quote between the quotes is escaped. -/
  quotes : ∃ body, w = '"' :: body ++ ['"'] ∧
    ∀ before after, body = before ++ '"' :: after → trailingBackslashes before % 2 = 1
  signs : ∀ c ∈ w, c ∉ signs
  controls : ∀ c ∈ w, 0x20 ≤ c.toNat

/-- Whether a character may stand in an escape. -/
def inEscape (c : Char) : Bool :=
  c = '\\' || (shortEscapes.map Prod.fst).contains c || c.isAlphanum

/-- What may be written for a character: an escape of it, or itself where nothing else is read in
it. -/
inductive Written (c : Char) : Text → Prop where
  | plain (hescape : mustEscape c = false) (hsign : c ∉ signs) : Written c [c]
  | escape {w : Text} (h : IsEscape c w) : Written c w

/-! ## Escapes -/

theorem scalar?_toNat (c : Char) : scalar? c.toNat = some c := by
  have hvalid : c.toNat.isValidChar := c.valid
  rw [scalar?, dif_pos hvalid]
  rfl

theorem not_surrogate (c : Char) : ¬(0xD800 ≤ c.toNat ∧ c.toNat < 0xDC00) := by
  have hvalid : c.toNat < 0xD800 ∨ 0xDFFF < c.toNat ∧ c.toNat < 0x110000 := c.valid
  omega

namespace IsEscape

variable {c : Char} {w : Text}

/-- **An escape is read as its character**, whatever follows. -/
theorem character? (h : IsEscape c w) (rest : Text) :
    character? (w ++ rest) = some (c, rest) := by
  cases h with
  | @short l h =>
    have hletter : l ≠ 'u' := by
      rintro rfl
      have hnone : shortEscapes.lookup 'u' = none := by decide
      rw [hnone] at h
      cases h
    change escape? (l :: rest) = some (c, rest)
    rw [escape?, if_neg hletter, h]
    rfl
  | @code a₁ a₂ a₃ a₄ hdigits hvalue =>
    have hunit : codeUnit? (a₁ :: a₂ :: a₃ :: a₄ :: rest) = some (c.toNat, rest) := by
      rw [codeUnit?, if_pos hdigits, hvalue]
    change codePoint? (a₁ :: a₂ :: a₃ :: a₄ :: rest) = some (c, rest)
    rw [codePoint?, hunit]
    dsimp only
    rw [if_neg (not_surrogate c), scalar?_toNat]
    rfl

/-- What stands in an escape is a backslash, the letter of a short one, or a letter or digit. -/
theorem inEscape_of_mem (h : IsEscape c w) {d : Char} (hd : d ∈ w) : inEscape d = true := by
  cases h with
  | @short l h =>
    obtain ⟨before, after, hlist, -⟩ := List.lookup_eq_some_iff.1 h
    have hl : (shortEscapes.map Prod.fst).contains l = true := by
      rw [List.contains_iff_mem, hlist]
      simp
    rcases List.mem_cons.1 hd with rfl | hd
    · rfl
    · rw [List.mem_singleton.1 hd, inEscape, hl, Bool.or_true, Bool.true_or]
  | @code a₁ a₂ a₃ a₄ hdigits hvalue =>
    rcases List.mem_cons.1 hd with rfl | hd
    · rfl
    · rcases List.mem_cons.1 hd with rfl | hd
      · rfl
      · have halphanum := Ascii.isAlphanum_of_isHexDigit (List.all_eq_true.1 hdigits d hd)
        rw [inEscape, halphanum, Bool.or_true]

/-- An escape ends with an even run of backslashes. -/
theorem trailing (h : IsEscape c w) : trailingBackslashes w % 2 = 0 := by
  cases h with
  | @short l h =>
    change trailingBackslashes (['\\'] ++ [l]) % 2 = 0
    rw [Css.trailingBackslashes_concat]
    split
    · rfl
    · rfl
  | @code a₁ a₂ a₃ a₄ hdigits hvalue =>
    have hlast : a₄ ≠ '\\' := by
      rintro rfl
      simp [show Ascii.isHexDigit '\\' = false by decide] at hdigits
    change trailingBackslashes (['\\', 'u', a₁, a₂, a₃] ++ [a₄]) % 2 = 0
    rw [Css.trailingBackslashes_concat, if_neg hlast]

/-- In an escape a double quote stands right after the backslash. -/
theorem eq_of_quote (h : IsEscape c w) {front back : Text} (hw : w = front ++ '"' :: back) :
    front = ['\\'] := by
  have hmem : '"' ∈ w := by simp [hw]
  cases h with
  | @short l h =>
    obtain rfl : '"' = l := by simpa using hmem
    exact Text.eq_of_concat_eq_append (u := ['\\']) (by decide) hw
  | @code a₁ a₂ a₃ a₄ hdigits hvalue =>
    have hdigit : '"' ∈ [a₁, a₂, a₃, a₄] := by simpa using hmem
    have hhex := List.all_eq_true.1 hdigits _ hdigit
    exact absurd hhex (by decide)

end IsEscape

/-- Nothing that may stand in an escape is a sign. -/
theorem not_sign_of_inEscape {d : Char} (h : inEscape d = true) : d ∉ signs := by
  intro hsign
  have hnone : signs.all (fun d => !inEscape d) = true := by decide
  have hnot := List.all_eq_true.1 hnone d hsign
  simp [h] at hnot

theorem le_toNat_of_inEscape {d : Char} (h : inEscape d = true) : 0x20 ≤ d.toNat := by
  simp only [inEscape, Bool.or_eq_true, decide_eq_true_eq, List.contains_iff_mem] at h
  rcases h with (rfl | hletter) | halphanum
  · decide
  · have hletters : (shortEscapes.map Prod.fst).all (fun d => decide (0x20 ≤ d.toNat)) = true := by
      decide
    exact of_decide_eq_true (List.all_eq_true.1 hletters d hletter)
  · exact Nat.le_trans (by decide) (Ascii.le_toNat_of_isAlphanum halphanum)

/-- A character that is no sign stays in the second pass. -/
theorem inertForm_of_not_sign {c : Char} (h : c ∉ signs) : inertForm c = [c] := by
  unfold inertForm
  split
  · simp [signs] at h
  · simp [signs] at h
  · simp [signs] at h
  · simp [signs] at h
  · simp [signs] at h
  · rfl

/-- **The second pass does not change an escape.** -/
theorem IsEscape.inert {c : Char} {w : Text} (h : IsEscape c w) : inert w = w :=
  Text.flatMap_eq_self fun _ hd =>
    inertForm_of_not_sign (not_sign_of_inEscape (h.inEscape_of_mem hd))

/-- **The second pass writes a sign as an escape of it.** -/
theorem isEscape_inertForm {c : Char} (h : c ∈ signs) : IsEscape c (inertForm c) := by
  simp only [signs, List.mem_cons, List.not_mem_nil, or_false] at h
  rcases h with rfl | rfl | rfl | rfl | rfl
  · exact .code rfl rfl
  · exact .code rfl rfl
  · exact .code rfl rfl
  · exact .code rfl rfl
  · exact .code rfl rfl

/-! ## What is written for a character -/

namespace Written

variable {c : Char} {w : Text}

theorem character? (h : Written c w) (rest : Text) : character? (w ++ rest) = some (c, rest) := by
  cases h with
  | plain hescape hsign =>
    simp only [mustEscape, Bool.or_eq_false_iff, decide_eq_false_iff_not] at hescape
    obtain ⟨⟨hquote, hbackslash⟩, hcontrol⟩ := hescape
    rw [List.singleton_append, Script.character?, if_neg hbackslash,
      if_neg (not_or.2 ⟨hquote, hcontrol⟩)]
  | escape h => exact h.character? rest

theorem trailing (h : Written c w) : trailingBackslashes w % 2 = 0 := by
  cases h with
  | plain hescape hsign =>
    have hbackslash : c ≠ '\\' := by
      rintro rfl
      cases hescape
    have hnone := Css.trailingBackslashes_concat [] c
    rw [if_neg hbackslash] at hnone
    exact congrArg (· % 2) hnone
  | escape h => exact h.trailing

theorem eq_of_quote (h : Written c w) {front back : Text} (hw : w = front ++ '"' :: back) :
    front = ['\\'] := by
  cases h with
  | plain hescape hsign =>
    obtain rfl : '"' = c := by
      have hmem : '"' ∈ [c] := by simp [hw]
      simpa using hmem
    cases hescape
  | escape h => exact h.eq_of_quote hw

theorem not_sign (h : Written c w) {d : Char} (hd : d ∈ w) : d ∉ signs := by
  cases h with
  | plain hescape hsign => rwa [List.mem_singleton.1 hd]
  | escape h => exact not_sign_of_inEscape (h.inEscape_of_mem hd)

theorem le_toNat (h : Written c w) {d : Char} (hd : d ∈ w) : 0x20 ≤ d.toNat := by
  cases h with
  | plain hescape hsign =>
    simp only [mustEscape, Bool.or_eq_false_iff, decide_eq_false_iff_not] at hescape
    rw [List.mem_singleton.1 hd]
    exact Nat.le_of_not_lt hescape.2
  | escape h => exact le_toNat_of_inEscape (h.inEscape_of_mem hd)

end Written

theorem mem_quoted_cases {form : Char → Text} {t : Text} {d : Char}
    (hd : d ∈ '"' :: t.flatMap form ++ ['"']) : d = '"' ∨ ∃ c, d ∈ form c := by
  simp only [List.mem_append, List.mem_cons, List.not_mem_nil, or_false] at hd
  rcases hd with (hquote | hd) | hquote
  · exact .inl hquote
  · obtain ⟨c, -, hd⟩ := List.mem_flatMap.1 hd
    exact .inr ⟨c, hd⟩
  · exact .inl hquote

section Literals

variable {form : Char → Text} (hform : ∀ c, Written c (form c))

include hform

theorem body?_forms (t : Text) : body? (t.flatMap form ++ ['"']) = some t := by
  induction t with
  | nil => rw [List.flatMap_nil, List.nil_append, body?, if_pos rfl]
  | cons c t ih =>
    rw [List.flatMap_cons, List.append_assoc, body?_of_character? ((hform c).character? _), ih,
      Option.map_some]

/-- **What is written character by character is a literal**, if for each something is written that
may be. -/
theorem isLiteral_forms (t : Text) : IsLiteral t ('"' :: t.flatMap form ++ ['"']) where
  denotes := body?_forms hform t
  quotes := by
    refine ⟨t.flatMap form, rfl, ?_⟩
    intro before after h
    apply Css.odd_of_flatMap (fun c => (hform c).trailing) _ h
    intro c front back hw
    exact (hform c).eq_of_quote hw
  signs := by
    intro d hd
    rcases mem_quoted_cases hd with rfl | ⟨c, hd⟩
    · simp [signs]
    · exact (hform c).not_sign hd
  controls := by
    intro d hd
    rcases mem_quoted_cases hd with rfl | ⟨c, hd⟩
    · decide
    · exact (hform c).le_toNat hd

end Literals

/-! ## Quoting, and literals -/

/-- What is left of a quoted text after the second pass is a literal, however its characters are
escaped. -/
theorem Quotes.isLiteral_inert {quote : Text → Text} (h : Quotes quote) (t : Text) :
    IsLiteral t (inert (quote t)) := by
  obtain ⟨form, hquote, hescapes, hkeeps⟩ := h
  have hwritten (c : Char) : Written c (inert (form c)) := by
    cases hescape : mustEscape c with
    | true =>
      have hform := hescapes c hescape
      rw [hform.inert]
      exact .escape hform
    | false =>
      have hinert : inert (form c) = inertForm c := by
        rw [hkeeps c hescape, inert, List.flatMap_singleton]
      rw [hinert]
      by_cases hsign : c ∈ signs
      · exact .escape (isEscape_inertForm hsign)
      · rw [inertForm_of_not_sign hsign]
        exact .plain hescape hsign
  have hinert : inert (quote t) = '"' :: t.flatMap (fun c => inert (form c)) ++ ['"'] := by
    rw [hquote, inert, List.flatMap_append, List.flatMap_cons, List.flatMap_assoc]
    rfl
  rw [hinert]
  exact isLiteral_forms hwritten t

/-- The two digits of a control character are those of its code point. -/
theorem isEscape_byteDigits {c : Char} (h : c.toNat < 0x20) :
    IsEscape c ("\\u00".toList ++ byteDigits c.toNat) := by
  have hdigits : ∀ n < 0x20, (['0', '0'] ++ byteDigits n).all Ascii.isHexDigit = true ∧
      Ascii.ofHex (['0', '0'] ++ byteDigits n) = n := by decide
  obtain ⟨hhex, hvalue⟩ := hdigits c.toNat h
  exact .code hhex hvalue

theorem quotes_quoted : Quotes quoted := by
  refine ⟨quotedForm, fun _ => rfl, fun c hescape => ?_, fun c hescape => ?_⟩
  · unfold quotedForm
    split
    · exact .short rfl
    · exact .short rfl
    · exact .short rfl
    · exact .short rfl
    · exact .short rfl
    · exact .short rfl
    · exact .short rfl
    · next hquote hbackslash _ _ _ _ _ =>
      simp only [mustEscape, Bool.or_eq_true, decide_eq_true_eq] at hescape
      have hcontrol : c.toNat < 0x20 := hescape.resolve_left (not_or.2 ⟨hquote, hbackslash⟩)
      rw [if_pos hcontrol]
      exact isEscape_byteDigits hcontrol
  · unfold quotedForm
    split
    case h_8 =>
      simp only [mustEscape, Bool.or_eq_false_iff, decide_eq_false_iff_not] at hescape
      rw [if_neg hescape.2]
    all_goals cases hescape

/-- **A literal is written as two passes write it.** -/
theorem literal_eq (t : Text) : literal t = inert (quoted t) := by
  have hform : (fun c => inert (quotedForm c)) = literalForm := by
    funext c
    unfold literalForm
    split
    case h_13 hopen hclose hamp hline hparagraph =>
      have hquoted : quotedForm c =
          if c.toNat < 0x20 then "\\u00".toList ++ byteDigits c.toNat else [c] := by
        unfold quotedForm
        split
        case h_8 => rfl
        all_goals contradiction
      have hsign : c ∉ signs := by
        simpa [signs] using ⟨hopen, hclose, hamp, hline, hparagraph⟩
      rw [hquoted]
      split
      · next hcontrol => exact (isEscape_byteDigits hcontrol).inert
      · rw [inert, List.flatMap_singleton, inertForm_of_not_sign hsign]
    all_goals rfl
  have hforms : t.flatMap literalForm = (t.flatMap quotedForm).flatMap inertForm := by
    rw [List.flatMap_assoc, ← hform]
    rfl
  rw [literal, hforms, inert, quoted, List.flatMap_append, List.flatMap_cons]
  rfl

theorem isLiteral (t : Text) : IsLiteral t (literal t) := by
  rw [literal_eq]
  exact quotes_quoted.isLiteral_inert t

theorem head?_literal (t : Text) : (literal t).head? = some '"' := rfl

theorem bracket_not_mem_literal (t : Text) : '<' ∉ literal t := by
  intro h
  have hsign := (isLiteral t).signs '<' h
  simp [signs] at hsign

/-- **Literals are faithful and inert.** A literal is what the second pass leaves of a text that is
quoted as JSON quotes it, and however the quoting chooses its escapes, what is left is a literal of
the text. -/
theorem isLiteral_literal (t : Text) :
    IsLiteral t (literal t) ∧ (Quotes quoted ∧ literal t = inert (quoted t)) ∧
      ∀ quote, Quotes quote → IsLiteral t (inert (quote t)) := by
  refine ⟨isLiteral t, ⟨quotes_quoted, literal_eq t⟩, ?_⟩
  intro quote hquote
  exact hquote.isLiteral_inert t

/-- A text with all that is escaped: quotes and backslashes next to signs, and controls. -/
def mixedText : Text := "\\</script>\"\\\"\n\x01&\u2028é".toList

theorem isLiteral_literal_mixedText :
    Quotes quoted ∧ IsLiteral mixedText (inert (quoted mixedText)) ∧
    read? (inert (quoted mixedText)) = some mixedText ∧
    inert (quoted mixedText) =
      "\"\\\\\\u003C/script\\u003E\\\"\\\\\\\"\\n\\u0001\\u0026\\u2028é\"".toList := by
  have hliteral := (isLiteral_literal mixedText).2.2 quoted quotes_quoted
  exact ⟨quotes_quoted, hliteral, hliteral.denotes, by decide +kernel⟩

/-- A pair of code units is read as one character, and half of a pair is not read. -/
example : read? "\"\\ud83d\\uDE00\"".toList = some "😀".toList ∧
    read? "\"\\ud83d\"".toList = none := by
  decide +kernel

end Stencil.Script
