import Stencil.Proofs.Bytes.Reference
import Stencil.Proofs.Html.Draining

/-!
# Decoding piece by piece

A reference is an ampersand, letters and digits or a number, and a semicolon, so none goes on in a
text that starts with another character: a text can be cut in front of such a character and decoded
in two pieces (`Reference.decode_append`). This is why the scanner may decode text from one opening
bracket to the next, as long as every one of them is text (`decode_pieces`). What is escaped can be
cut off at its end, whatever follows: it is decoded to what was escaped (`decode_escaped`).
-/

namespace Stencil.Html

/-! ## References at a cut -/

namespace Reference

/-- Whether a reference can go on with a character. -/
def continues (c : Char) : Bool := c.isAlphanum || c = '#' || c = ';'

/-- What follows a semicolon at the start of a text. -/
def afterSemicolon? : Text → Option Text
  | ';' :: rest => some rest
  | _ => none

theorem afterSemicolon?_cons (rest : Text) : afterSemicolon? (';' :: rest) = some rest := rfl

theorem afterSemicolon?_eq_none {t : Text} (h : ∀ rest, t ≠ ';' :: rest) :
    afterSemicolon? t = none := by
  unfold afterSemicolon?
  split
  · exact absurd rfl (h _)
  · rfl

theorem eq_of_afterSemicolon? {t rest : Text} (h : afterSemicolon? t = some rest) :
    t = ';' :: rest := by
  unfold afterSemicolon? at h
  split at h
  · cases h
    rfl
  · cases h

/-- Reads a run of characters of one kind and the semicolon after it, if the run means something. -/
def terminated? (p : Char → Bool) (meaning? : Text → Option Text) (t : Text) :
    Option (Text × Text) :=
  (afterSemicolon? (t.dropWhile p)).bind fun rest =>
    (meaning? (t.takeWhile p)).map fun meaning => (meaning, rest)

theorem numeric?_eq (isDigit : Char → Bool) (n : Nat) (value : Text → Nat) (t : Text) :
    numeric? isDigit n value t = terminated? isDigit (fun digits =>
      if digits = [] ∨ n < digits.length then none
      else (scalar? (value digits)).map fun c => [c]) t := by
  unfold numeric? terminated?
  split
  · next rest h =>
    rw [h, afterSemicolon?_cons, Option.bind_some]
    dsimp only
    split
    · rfl
    · rw [Option.map_map]
      rfl
  · next h =>
    rw [afterSemicolon?_eq_none h]
    rfl

theorem name?_eq (t : Text) :
    name? t = terminated? Char.isAlphanum (fun name => named.lookup name) t := by
  unfold name? terminated?
  split
  · next rest h =>
    rw [h]
    rfl
  · next h =>
    rw [afterSemicolon?_eq_none h]
    rfl

theorem read?_decimal {t : Text} (hx : t.head? ≠ some 'x') (hX : t.head? ≠ some 'X') :
    read? ('#' :: t) = numeric? Char.isDigit maxDecimalDigits Ascii.ofDecimal t := by
  unfold read?
  split
  · next he => cases he; exact absurd rfl hx
  · next he => cases he; exact absurd rfl hX
  · next he => cases he; rfl
  · next hnot => exact absurd rfl (hnot t)

theorem read?_name {t : Text} (h : t.head? ≠ some '#') : read? t = name? t := by
  unfold read?
  split
  · exact absurd rfl h
  · exact absurd rfl h
  · exact absurd rfl h
  · rfl

/-- What is read up to a semicolon does not depend on what follows it. -/
theorem terminated?_append_of_some {p : Char → Bool} {meaning? : Text → Option Text}
    {a meaning rest : Text} (h : terminated? p meaning? a = some (meaning, rest)) (b : Text) :
    terminated? p meaning? (a ++ b) = some (meaning, rest ++ b) := by
  obtain ⟨r, hafter, hmeaning⟩ := Option.bind_eq_some_iff.1 h
  obtain ⟨m, hm, he⟩ := Option.map_eq_some_iff.1 hmeaning
  cases he
  have hdrop := eq_of_afterSemicolon? hafter
  have htake : (a ++ b).takeWhile p = a.takeWhile p := by
    have hlength : (a.takeWhile p).length ≠ a.length := by
      have hparts := congrArg List.length (List.takeWhile_append_dropWhile (p := p) (l := a))
      rw [hdrop, List.length_append, List.length_cons] at hparts
      omega
    rw [List.takeWhile_append, if_neg hlength]
  rw [terminated?, htake, List.dropWhile_append, hdrop]
  simp [afterSemicolon?, hm]

/-- **A reference ends with its semicolon**, so it is read whatever follows it. -/
theorem read?_append_of_some {a meaning rest : Text} (h : read? a = some (meaning, rest))
    (b : Text) : read? (a ++ b) = some (meaning, rest ++ b) := by
  unfold read? at h
  split at h
  · rw [numeric?_eq] at h
    exact (numeric?_eq ..).trans (terminated?_append_of_some h b)
  · rw [numeric?_eq] at h
    exact (numeric?_eq ..).trans (terminated?_append_of_some h b)
  · next t hx hX =>
    rw [numeric?_eq] at h
    have hne : t ≠ [] := by
      rintro rfl
      cases h
    obtain ⟨c, cs, rfl⟩ := List.exists_cons_of_ne_nil hne
    rw [List.cons_append, List.cons_append, read?_decimal, numeric?_eq, ← List.cons_append]
    · exact terminated?_append_of_some h b
    · intro hc
      cases hc
      exact hx cs rfl
    · intro hc
      cases hc
      exact hX cs rfl
  · next _ _ hsign =>
    rw [name?_eq] at h
    have hne : a ≠ [] := by
      rintro rfl
      cases h
    obtain ⟨c, cs, rfl⟩ := List.exists_cons_of_ne_nil hne
    rw [read?_name, name?_eq]
    · exact terminated?_append_of_some h b
    · intro hc
      cases hc
      exact hsign cs rfl

section Cut

variable {b : Text} (hb : b.head?.all (fun c => !continues c) = true)

include hb

theorem head?_ne_of_continues {c : Char} (hc : continues c = true) : b.head? ≠ some c := by
  intro h
  simp [h, hc] at hb

theorem head?_all_not {p : Char → Bool} (hp : ∀ c, p c = true → continues c = true) :
    b.head?.all (fun c => !p c) = true := by
  cases b with
  | nil => rfl
  | cons c b =>
    have hc : p c = false := Bool.eq_false_iff.2 fun h => head?_ne_of_continues hb (hp c h) rfl
    simpa using hc

theorem afterSemicolon?_append (r : Text) :
    afterSemicolon? (r ++ b) = (afterSemicolon? r).map (· ++ b) := by
  cases r with
  | nil =>
    refine afterSemicolon?_eq_none ?_
    rintro rest rfl
    exact head?_ne_of_continues hb (c := ';') (by decide) rfl
  | cons c r =>
    by_cases hc : c = ';'
    · subst hc
      rfl
    · have hnone (u : Text) : afterSemicolon? (c :: u) = none :=
        afterSemicolon?_eq_none fun rest h => hc (List.cons.inj h).1
      rw [List.cons_append, hnone, hnone]
      rfl

theorem terminated?_append {p : Char → Bool} (hp : ∀ c, p c = true → continues c = true)
    (meaning? : Text → Option Text) (a : Text) : terminated? p meaning? (a ++ b) =
      (terminated? p meaning? a).map fun r => (r.1, r.2 ++ b) := by
  have hrun := head?_all_not hb hp
  unfold terminated?
  rw [Text.takeWhile_append_of_head hrun, Text.dropWhile_append_of_head hrun,
    afterSemicolon?_append hb, Option.bind_map, Option.map_bind]
  congr 1
  funext rest
  dsimp only [Function.comp]
  rw [Option.map_map]
  rfl

theorem numeric?_append {isDigit : Char → Bool}
    (hdigit : ∀ c, isDigit c = true → continues c = true) (n : Nat) (value : Text → Nat)
    (a : Text) : numeric? isDigit n value (a ++ b) =
      (numeric? isDigit n value a).map fun r => (r.1, r.2 ++ b) := by
  rw [numeric?_eq, numeric?_eq, terminated?_append hb hdigit]

theorem name?_append (a : Text) :
    name? (a ++ b) = (name? a).map fun r => (r.1, r.2 ++ b) := by
  have hname : ∀ c, Char.isAlphanum c = true → continues c = true := by
    intro c hc
    simp [continues, hc]
  rw [name?_eq, name?_eq, terminated?_append hb hname]

/-- **A reference in front of a cut is read as if the text ended there.** -/
theorem read?_append (a : Text) :
    read? (a ++ b) = (read? a).map fun r => (r.1, r.2 ++ b) := by
  have hdecimal : ∀ c, Char.isDigit c = true → continues c = true := by
    intro c hc
    simp [continues, Char.isAlphanum, hc]
  have hhex : ∀ c, Ascii.isHexDigit c = true → continues c = true := by
    intro c hc
    simp [continues, Ascii.isAlphanum_of_isHexDigit hc]
  cases a with
  | nil =>
    have hname := name?_append hb []
    rw [List.nil_append] at hname ⊢
    rw [read?_name (head?_ne_of_continues hb (by decide)), hname]
    rfl
  | cons c a =>
    by_cases hc : c = '#'
    · subst hc
      cases a with
      | nil =>
        have hnumber := numeric?_append hb hdecimal maxDecimalDigits Ascii.ofDecimal []
        rw [List.nil_append] at hnumber
        rw [List.cons_append, List.nil_append,
          read?_decimal (head?_ne_of_continues hb (by decide))
            (head?_ne_of_continues hb (by decide)), hnumber]
        rfl
      | cons d a =>
        by_cases hx : d = 'x'
        · subst hx
          exact numeric?_append hb hhex maxHexDigits Ascii.ofHex a
        · by_cases hX : d = 'X'
          · subst hX
            exact numeric?_append hb hhex maxHexDigits Ascii.ofHex a
          · have hnumber := numeric?_append hb hdecimal maxDecimalDigits Ascii.ofDecimal (d :: a)
            rw [List.cons_append, read?_decimal (by simpa using hx) (by simpa using hX), hnumber,
              read?_decimal (by simpa using hx) (by simpa using hX)]
    · rw [read?_name (by simpa using hc), name?_append hb, read?_name (by simpa using hc)]

/-- **A text can be cut where no reference goes on**, and decoded in two pieces. -/
theorem decode_append (a : Text) : decode (a ++ b) = decode a ++ decode b := by
  fun_induction decode a with
  | case1 => rfl
  | case2 a meaning rest hread _ ih =>
    have happend := read?_append hb a
    rw [hread] at happend
    rw [List.cons_append, decode_of_read? happend, ih, List.append_assoc]
  | case3 a hread ih =>
    have happend := read?_append hb a
    rw [hread] at happend
    rw [List.cons_append, decode_of_read?_none happend, ih, List.cons_append]
  | case4 c a hc ih => rw [List.cons_append, decode_cons hc, ih, List.cons_append]

end Cut

/-- Decoding from one opening bracket to the next gives the decoding of the whole text. -/
theorem decode_intercalate (runs : List Text) :
    decode (['<'].intercalate runs) = ['<'].intercalate (runs.map decode) := by
  induction runs with
  | nil => exact decode_nil
  | cons run runs ih =>
    cases runs with
    | nil => simp [List.intercalate]
    | cons next runs =>
      rw [List.intercalate_cons_cons, List.map_cons, List.map_cons, List.intercalate_cons_cons,
        ← List.map_cons, ← ih, List.append_assoc, decode_append (by rfl), List.append_assoc,
        List.singleton_append, decode_cons (by decide), List.singleton_append]

end Reference

/-! ## Opening brackets that are text -/

/-- Whether nothing starts with an opening bracket in front of a text, so that it is text itself. At
the end of a fragment a slash after it is text as well. -/
def opensNothing : Text → Bool
  | [] => true
  | ['/'] => true
  | c :: _ => c ≠ '!' && c ≠ '?' && c ≠ '/' && !c.isAlpha

/-- Whether every opening bracket of a text is text itself, if `rest` follows. -/
def isProse (rest : Text) : Text → Bool
  | [] => true
  | c :: cs => (c ≠ '<' || opensNothing (cs ++ rest)) && isProse rest cs

namespace Lexeme

theorem markup_of_opensNothing {t : Text} (h : opensNothing t = true) (hslash : t ≠ ['/']) :
    markup t = (.text ['<'], t) := by
  unfold opensNothing at h
  split at h
  · rfl
  · exact absurd rfl hslash
  · next c cs _ =>
    simp only [Bool.and_eq_true, decide_eq_true_eq, Bool.not_eq_true'] at h
    obtain ⟨⟨⟨hdeclaration, hquestion⟩, hslash⟩, hletter⟩ := h
    rw [markup, if_neg hdeclaration, if_neg hquestion, if_neg hslash, if_neg (by simp [hletter])]

end Lexeme

namespace Scanner

/-- An opening bracket with which nothing starts joins the text after it. -/
theorem pull_bracket {t : Text} (h : opensNothing t = true) :
    pull ('<' :: t) = ('<' :: (pull t).1, (pull t).2) := by
  by_cases hslash : t = ['/']
  · subst hslash
    decide +kernel
  · have hread : Lexeme.read '<' t = (.text ['<'], t) := Lexeme.markup_of_opensNothing h hslash
    exact pull_of_read_text hread

/-- Text is read whole after a run of it that is not read yet. -/
theorem pull_run_prose (run : Text) (hrun : '<' ∉ run) {t rest : Text}
    (ht : isProse rest t = true) (hrest : rest.head?.all (· = '<') = true) :
    pull (run ++ t ++ rest) = (Reference.decode (run ++ t) ++ (pull rest).1, (pull rest).2) := by
  induction t generalizing run with
  | nil =>
    rw [List.append_nil]
    cases run with
    | nil => simp
    | cons c run => exact pull_text (List.cons_ne_nil c run) hrun hrest
  | cons c t ih =>
    simp only [isProse, Bool.and_eq_true] at ht
    obtain ⟨hc, ht⟩ := ht
    by_cases hbracket : c = '<'
    · subst hbracket
      have hopens : opensNothing (t ++ rest) = true := by simpa using hc
      have htail := ih [] List.not_mem_nil ht
      have hbracket : pull ('<' :: t ++ rest) =
          (Reference.decode ('<' :: t) ++ (pull rest).1, (pull rest).2) := by
        rw [List.cons_append, pull_bracket hopens, ← List.nil_append t, htail,
          Reference.decode_cons (by decide)]
        rfl
      cases run with
      | nil => exact hbracket
      | cons d run =>
        rw [List.append_assoc, pull_text (List.cons_ne_nil d run) hrun rfl, hbracket,
          Reference.decode_append rfl, List.append_assoc]
    · have hrun : '<' ∉ run ++ [c] := by
        simp [hrun, Ne.symm hbracket]
      have happend := ih (run ++ [c]) hrun ht
      rwa [List.append_assoc run] at happend

/-- **Text whose opening brackets are text is read whole**, up to the next one that is not. -/
theorem pull_prose {t rest : Text} (ht : isProse rest t = true)
    (hrest : rest.head?.all (· = '<') = true) :
    pull (t ++ rest) = (Reference.decode t ++ (pull rest).1, (pull rest).2) :=
  pull_run_prose [] List.not_mem_nil ht hrest

/-- From a resting state: one text, in front of a tag, a comment or the end. -/
theorem tokens_prose (answers : Nat → Bool) (k : Nat) {t rest : Text} (ht : t ≠ [])
    (hprose : isProse rest t = true) (hrest : Builder.Opens rest) :
    tokens answers k { rest := t ++ rest } =
      .text (Reference.decode t) :: tokens answers (k + 1) { rest } :=
  tokens_of_pull_text answers k (Reference.decode_ne_nil ht) (pull_prose hprose hrest.head) hrest

end Scanner

/-! ## Decoding in pieces -/

open Reference (decode)

/-- **Decoding in pieces.** A text is decoded in two pieces where the second does not go on with a
reference, and from one opening bracket to the next. So the scanner, which reads text in this way,
makes one token of it, with what the whole text is decoded to. -/
theorem decode_pieces :
    (∀ a b : Text, b.head?.all (fun c => !Reference.continues c) = true →
      decode (a ++ b) = decode a ++ decode b ∧
      Bytes.decode? (a ++ b) = some (decode a ++ decode b)) ∧
    (∀ runs : List Text,
      decode (['<'].intercalate runs) = ['<'].intercalate (runs.map decode)) ∧
    ∀ (answers : Nat → Bool) (k : Nat) (t rest : Text), t ≠ [] → isProse rest t = true →
      Builder.Opens rest → Scanner.tokens answers k { rest := t ++ rest } =
        .text (decode t) :: Scanner.tokens answers (k + 1) { rest } := by
  refine ⟨?_, Reference.decode_intercalate, ?_⟩
  · intro a b hb
    have happend := Reference.decode_append hb a
    exact ⟨happend, by rw [Bytes.decode?_eq, happend]⟩
  · intro answers k t rest ht hprose hrest
    exact Scanner.tokens_prose answers k ht hprose hrest

/-- Text with brackets of its own, between what is a reference and what looks like one. -/
def comparison : Text := "1 &lt 2 &amp;& 3 < 4 <<é &#60;= &#x".toList

/-- A reference without its semicolon in front of a cut, and a text with lone brackets in front of a
tag. -/
theorem decode_pieces_comparison :
    ("é;&gt;".toList.head?.all fun c => !Reference.continues c) = true ∧
    decode "&amp;lt &#62".toList ++ decode "é;&gt;".toList = "&lt &#62é;>".toList ∧
    decode ("&amp;lt &#62".toList ++ "é;&gt;".toList) = "&lt &#62é;>".toList ∧
    comparison ≠ [] ∧ isProse "<b>3;".toList comparison = true ∧
    Builder.Opens "<b>3;".toList ∧
    Scanner.tokens (fun _ => true) 0 { rest := comparison ++ "<b>3;".toList } =
      [.text "1 &lt 2 && 3 < 4 <<é <= &#x".toList, .startTag "b".toList [] false,
        .text "3;".toList] := by
  have hcut : ("é;&gt;".toList.head?.all fun c => !Reference.continues c) = true := by
    decide +kernel
  have hprose : isProse "<b>3;".toList comparison = true := by decide +kernel
  have hopens : Builder.Opens "<b>3;".toList :=
    .inr ⟨_, .startTag "b".toList [] false, "3;".toList, rfl, by decide +kernel, fun _ => nofun⟩
  have hne : comparison ≠ [] := by decide
  have hpieces := (decode_pieces.1 "&amp;lt &#62".toList "é;&gt;".toList hcut).1
  have htokens :=
    decode_pieces.2.2 (fun _ => true) 0 comparison "<b>3;".toList hne hprose hopens
  refine ⟨hcut, by decide +kernel, hpieces.trans ?_, hne, hprose, hopens, htokens.trans ?_⟩
  · decide +kernel
  · decide +kernel

/-- Elsewhere a reference can go on across the cut. -/
example : decode "&am".toList ++ decode "p;".toList ≠ decode "&amp;".toList := by
  decide +kernel

/-! ## Decoding what is escaped -/

/-- **Decoding takes escaping back**, in front of whatever follows. Text that is escaped holds no
angle bracket and no no-break space, and a value that is escaped no double quote and no no-break
space. -/
theorem decode_escaped (t : Text) :
    (decode (escapeText t) = t ∧ decode (escapeAttribute t) = t) ∧
    (∀ rest, decode (escapeText t ++ rest) = t ++ decode rest ∧
      decode (escapeAttribute t ++ rest) = t ++ decode rest) ∧
    (Bytes.decode? (escapeText t) = some t ∧ Bytes.decode? (escapeAttribute t) = some t) ∧
    ('<' ∉ escapeText t ∧ '>' ∉ escapeText t ∧ '\u00A0' ∉ escapeText t) ∧
    ('"' ∉ escapeAttribute t ∧ '\u00A0' ∉ escapeAttribute t) := by
  refine ⟨⟨Reference.decode_escapeText t, Reference.decode_escapeAttribute t⟩, ?_, ?_, ?_, ?_⟩
  · intro rest
    exact ⟨Reference.decode_escapeText_append t rest,
      Reference.decode_escapeAttribute_append t rest⟩
  · rw [Bytes.decode?_eq, Bytes.decode?_eq, Reference.decode_escapeText,
      Reference.decode_escapeAttribute]
    exact ⟨rfl, rfl⟩
  · exact ⟨not_mem_escapeText (.inl rfl) t, not_mem_escapeText (.inr (.inl rfl)) t,
      not_mem_escapeText (.inr (.inr rfl)) t⟩
  · exact ⟨not_mem_escapeAttribute (.inl rfl) t, not_mem_escapeAttribute (.inr rfl) t⟩

end Stencil.Html
