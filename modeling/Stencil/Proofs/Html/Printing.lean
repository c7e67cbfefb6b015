import Stencil.Proofs.Html.Draining

/-!
# Printing

Tokens written as HTML writes them, and read again. `Token.print` writes tokens one after another:
text is escaped, except right after the start tag of an element whose text is written as it is.
Tokens that can be told apart once they are written (`Printable`) are read back, each as it was
(`tokenize_print`): no text runs into another, and the body of an element such as `script` ends
where its end tag is written.
-/

namespace Stencil.Html

namespace Token

/-- Whether the text after a token is written as it is. -/
def opensRawText (t : Token) : Bool := t.opensBody?.any isRawText

/-- A token as HTML writes it. There is no doctype in a fragment, so none is written. -/
def written : Token → Text
  | .doctype _ => []
  | .startTag name as slash =>
    '<' :: name ++ attributesText (Builder.values as) ++ Tag.startTagEnd slash
  | .endTag name => endTagText name
  | .comment t => commentText t
  | .text t => escapeText t

/-- Tokens as HTML writes them, after a token with raw text or another one. -/
def print (raw : Bool) : List Token → Text
  | [] => []
  | .text t :: ts => (if raw then t else escapeText t) ++ print false ts
  | t :: ts => t.written ++ print t.opensRawText ts

end Token

open Token

/-- Whether a token can be written and read again: its attributes have values, it is no doctype, and
it does not turn all that follows into text. -/
def Token.IsPrintable : Token → Prop
  | .doctype _ => False
  | .startTag name as slash => (Token.startTag name as slash).WellFormed ∧
    (∀ a ∈ as, a.2.isSome = true) ∧ (name = plaintextName → slash = true)
  | t => t.WellFormed

instance : (t : Token) → Decidable t.IsPrintable
  | .doctype _ => inferInstanceAs (Decidable False)
  | .startTag name as slash => inferInstanceAs
    (Decidable ((Token.startTag name as slash).WellFormed ∧ (∀ a ∈ as, a.2.isSome = true) ∧
      (name = plaintextName → slash = true)))
  | .endTag name => inferInstanceAs (Decidable (Token.endTag name).WellFormed)
  | .comment t => inferInstanceAs (Decidable (Token.comment t).WellFormed)
  | .text t => inferInstanceAs (Decidable (Token.text t).WellFormed)

/-- Whether tokens can be told apart once they are written. -/
structure Printable (ts : List Token) : Prop where
  each : ∀ t ∈ ts, t.IsPrintable
  /-- No text stands next to another. -/
  apart : ∀ c d after, ¬.text c :: .text d :: after <:+ ts
  /-- A body is one text or empty, holds no close tag if it is raw, and has its end tag. -/
  bodies : ∀ t name after, t :: after <:+ ts → t.opensBody? = some name →
    ∃ c rest, after = ofRun c ++ .endTag name :: rest ∧
      (isRawText name = true → ¬Tag.Closes name c)

/-- What is left of tokens that can be told apart can be told apart. -/
theorem Printable.of_suffix {us ts : List Token} (h : Printable ts) (hus : us <:+ ts) :
    Printable us where
  each t ht := h.each t (hus.mem ht)
  apart c d after htexts := h.apart c d after (htexts.trans hus)
  bodies t name after ht := h.bodies t name after (ht.trans hus)

/-! ## Tags and comments -/

theorem writtenAttributes_values {as : List WrittenAttribute} (has : Tag.AreAttributes as)
    (hvalued : ∀ a ∈ as, a.2.isSome = true) :
    Tag.writtenAttributes (Builder.values as) = as := by
  have hattribute : ∀ a ∈ as, (Ascii.lower a.1, some (a.2.getD [])) = a := by
    intro a ha
    obtain ⟨name, value⟩ := a
    obtain ⟨v, rfl⟩ := Option.isSome_iff_exists.1 (hvalued _ ha)
    have hname : Ascii.lower name = name := (has.names _ ha).2
    dsimp only
    rw [hname, Option.getD_some]
  rw [Tag.writtenAttributes, Builder.values, List.map_map]
  exact (List.map_congr_left hattribute).trans (List.map_id as)

/-- **A tag or a comment that is written is read back**, whatever follows it. -/
theorem read_written {t : Token} (ht : t.IsPrintable) (htext : ∀ c, t ≠ .text c) (rest : Text) :
    ∃ u, t.written ++ rest = '<' :: u ∧ Lexeme.read '<' u = (.token t, rest) := by
  cases t with
  | doctype c => cases ht
  | text c => exact absurd rfl (htext c)
  | comment c => exact ⟨_, commentText_append c rest, Lexeme.read_comment ht rest⟩
  | endTag name =>
    obtain ⟨hname, hlower⟩ := ht
    have hread := Lexeme.read_endTag hname rest
    rw [hlower] at hread
    exact ⟨_, endTagText_append name rest, hread⟩
  | startTag name as slash =>
    obtain ⟨⟨hname, hlower, has⟩, hvalued, -⟩ := ht
    have hwritten := writtenAttributes_values has hvalued
    have hnames : ∀ a ∈ Builder.values as, Tag.IsAttributeName a.1 := by
      intro a ha
      obtain ⟨b, hb, rfl⟩ := List.mem_map.1 ha
      exact (has.names b hb).1
    have hdistinct : ((Tag.writtenAttributes (Builder.values as)).map Prod.fst).Nodup := by
      rw [hwritten]
      exact has.distinct
    have hread := Lexeme.read_startTagEnd hname hnames hdistinct slash rest
    rw [hlower, hwritten] at hread
    refine ⟨_, ?_, hread⟩
    rw [Token.written, List.append_assoc, List.append_assoc]
    rfl

/-! ## Tokens -/

theorem print_markup {t : Token} (htext : ∀ c, t ≠ .text c) (raw : Bool) (ts : List Token) :
    print raw (t :: ts) = t.written ++ print t.opensRawText ts := by
  cases t with
  | text c => exact absurd rfl (htext c)
  | doctype | startTag | endTag | comment => rfl

theorem opens_print {c : Text} {ts : List Token} (h : Printable (.text c :: ts)) :
    Builder.Opens (print false ts) := by
  cases ts with
  | nil => exact .inl rfl
  | cons t ts =>
    have htext : ∀ d, t ≠ .text d := by
      rintro d rfl
      exact h.apart c d ts (List.suffix_refl _)
    have ht : t.IsPrintable := h.each t (List.mem_cons_of_mem _ List.mem_cons_self)
    obtain ⟨u, hu, hread⟩ := read_written ht htext (print t.opensRawText ts)
    rw [print_markup htext]
    exact .inr ⟨u, t, _, hu, hread, htext⟩

/-- A body and its end tag are read as they are printed. -/
theorem readBody_print {name c : Text} (hname : (isRawText name || isEscapable name) = true)
    (hplain : name ≠ plaintextName) (hc : isRawText name = true → ¬Tag.Closes name c)
    (ts : List Token) :
    Scanner.readBody name (print (isRawText name) (ofRun c ++ .endTag name :: ts)) =
      (ofRun c ++ [.endTag name], print false ts) := by
  have hprint : print (isRawText name) (ofRun c ++ .endTag name :: ts) =
      (if isRawText name then c else escapeText c) ++
        '<' :: '/' :: (name ++ '>' :: print false ts) := by
    have htag (raw : Bool) : print raw (.endTag name :: ts) =
        '<' :: '/' :: (name ++ '>' :: print false ts) := endTagText_append name _
    unfold ofRun
    split
    · next hempty =>
      subst hempty
      rw [List.nil_append, htag]
      split
      · rfl
      · rfl
    · exact congrArg (_ ++ ·) (htag false)
  have hcloses : ¬Tag.Closes name (if isRawText name then c else escapeText c) := by
    split
    · next hraw => exact hc hraw
    · exact fun hcloses => bracket_not_mem_escapeText c (Tag.mem_of_closes hcloses)
  have hcut := Tag.cutCloseTag?_append (Builder.bracket_not_mem_of_body hname) hcloses
    (print false ts)
  have hdecode : (if isEscapable name then
      Reference.decode (if isRawText name then c else escapeText c)
      else if isRawText name then c else escapeText c) = c := by
    cases hesc : isEscapable name with
    | true => simp [Scanner.not_isRawText_of_isEscapable hesc]
    | false =>
      rw [hesc, Bool.or_false] at hname
      simp [hname]
  have hother : name ≠ "plaintext".toList := hplain
  rw [hprint, Scanner.readBody, if_neg hother, hcut, Option.getD_some]
  dsimp only
  rw [hdecode]

/-- From a resting state, what is printed is read back. -/
theorem tokens_print {ts : List Token} (h : Printable ts) (k : Nat) :
    Scanner.tokens (fun _ => true) k { rest := print false ts } = ts := by
  induction hn : ts.length using Nat.strongRecOn generalizing ts k with
  | ind n ih =>
    subst hn
    cases ts with
    | nil => exact Scanner.tokens_nil _ k
    | cons t ts =>
      have hrest (j : Nat) : Scanner.tokens (fun _ => true) j { rest := print false ts } = ts :=
        ih ts.length (by rw [List.length_cons]; omega) (h.of_suffix (List.suffix_cons t ts)) j rfl
      by_cases htext : ∃ c, t = .text c
      · obtain ⟨c, rfl⟩ := htext
        have hc : escapeText c ≠ [] := by
          intro hempty
          have hdecode := Reference.decode_escapeText c
          rw [hempty, Reference.decode_nil] at hdecode
          exact h.each _ List.mem_cons_self hdecode.symm
        have hread := Scanner.tokens_text (fun _ => true) k hc (bracket_not_mem_escapeText c)
          (opens_print h)
        rw [Reference.decode_escapeText, hrest] at hread
        exact hread
      · replace htext : ∀ c, t ≠ .text c := fun c hc => htext ⟨c, hc⟩
        have ht : t.IsPrintable := h.each t List.mem_cons_self
        obtain ⟨u, hu, hread⟩ := read_written ht htext (print t.opensRawText ts)
        rw [print_markup htext, hu, Scanner.tokens_token _ k (Scanner.pull_token hread)]
        cases hbody : t.opensBody? with
        | none =>
          rw [opensRawText, hbody]
          exact congrArg (t :: ·) (hrest (k + 1))
        | some name =>
          obtain ⟨⟨as, rfl⟩, hname⟩ := eq_of_opensBody? hbody
          obtain ⟨c, rest, rfl, hc⟩ := h.bodies _ name ts (List.suffix_refl _) hbody
          have hplain : name ≠ plaintextName := by
            rintro rfl
            exact absurd (ht.2.2 rfl) Bool.false_ne_true
          have hread := readBody_print hname hplain hc rest
          have hsuffix : rest <:+ .startTag name as false :: (ofRun c ++ .endTag name :: rest) :=
            (List.suffix_cons _ _).trans ((List.suffix_append _ _).trans (List.suffix_cons _ _))
          rw [opensRawText, hbody]
          refine congrArg (Token.startTag name as false :: ·) ?_
          rw [Option.any_some, Scanner.tokens_body _ _ rfl hread,
            ih rest.length (by simp; omega) (h.of_suffix hsuffix) _ rfl, List.append_assoc]
          rfl

/-- **Tokens that are printed are read back**, each as it was. -/
theorem tokenize_print {ts : List Token} (h : Printable ts) : tokenize (print false ts) = ts :=
  tokens_print h 0

/-- Signs of markup in texts and values, a script that nearly closes, a title, and a slash. -/
def printableTokens : List Token :=
  [.text "a < b & c\u00A0".toList,
    .startTag "x:y".toList [("=k".toList, some "\"&lt;".toList)] true,
    .startTag "script".toList [] false, .text "</scripts></scrip".toList, .endTag "script".toList,
    .comment ">--".toList, .startTag "title".toList [] false, .text "</title>".toList,
    .endTag "title".toList]

theorem tokenize_print_printableTokens :
    Printable printableTokens ∧ tokenize (print false printableTokens) = printableTokens := by
  have hprintable : Printable printableTokens := by
    refine ⟨by decide +kernel, ?_, ?_⟩
    · intro c d after hsuffix
      simp [printableTokens, List.suffix_cons_iff] at hsuffix
    · intro t name after hsuffix hbody
      have hopens (n : Text) (h : (Token.startTag n [] false).opensBody? = some n) :
          (Token.startTag n [] false).opensBody? = some name → n = name := by
        rw [h]
        exact Option.some.inj
      simp only [printableTokens, List.suffix_cons_iff, List.cons.injEq, List.suffix_nil,
        reduceCtorEq, or_false] at hsuffix
      rcases hsuffix with ⟨rfl, -⟩ | ⟨rfl, -⟩ | ⟨rfl, rfl⟩ | ⟨rfl, -⟩ | ⟨rfl, -⟩ | ⟨rfl, -⟩ |
        ⟨rfl, rfl⟩ | ⟨rfl, -⟩ | ⟨rfl, -⟩
      case inr.inr.inl =>
        obtain rfl := hopens "script".toList (by decide) hbody
        exact ⟨"</scripts></scrip".toList, _, rfl,
          fun _ => Tag.not_closes_of_cutCloseTag?_none (by decide +kernel)⟩
      case inr.inr.inr.inr.inr.inr.inl =>
        obtain rfl := hopens "title".toList (by decide) hbody
        exact ⟨"</title>".toList, _, rfl, fun hraw => absurd hraw (by decide)⟩
      all_goals cases hbody
  exact ⟨hprintable, tokenize_print hprintable⟩

end Stencil.Html
