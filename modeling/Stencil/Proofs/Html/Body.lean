import Stencil.Proofs.Html.Turns
import Stencil.Proofs.Html.WellFormed

/-!
# Bodies

The body of an element such as `script` is read up to the first close tag of its name, so it holds
none: `Tag.Closes` says what a close tag inside a text is, and `Tag.cutCloseTag?_append` that a text
without one, written before a close tag, is read back as it is.

`Scanned` is the shape of the tokens of a fragment: tokens one by one, and the start tag of an
element with a body together with the body and the end tag. Every fragment has it
(`scanned_tokens`).
-/

namespace Stencil.Html

namespace Tag

/-! ### Close tags -/

/-- Whether a close tag of `name` stands in a text, up to the character that ends its name. -/
def Closes (name t : Text) : Prop :=
  ∃ before written c after, t = before ++ "</".toList ++ written ++ c :: after ∧
    Ascii.sameName written name = true ∧ endsName c = true

theorem closes_of_cons {name t : Text} {c : Char} (h : Closes name t) : Closes name (c :: t) := by
  obtain ⟨before, written, d, after, rfl, hw, hd⟩ := h
  exact ⟨c :: before, written, d, after, by simp, hw, hd⟩

theorem not_closes_nil (name : Text) : ¬Closes name [] := by
  rintro ⟨before, written, c, after, h, -, -⟩
  have := congrArg List.length h
  simp at this

theorem mem_of_closes {name t : Text} (h : Closes name t) : '<' ∈ t := by
  obtain ⟨before, written, c, after, rfl, -, -⟩ := h
  simp

theorem length_of_sameName {s t : Text} (h : Ascii.sameName s t = true) : s.length = t.length := by
  have hlower : Ascii.lower s = Ascii.lower t := by simpa [Ascii.sameName] using h
  simpa using congrArg List.length hlower

theorem stripName?_append {name written : Text} (h : Ascii.sameName written name = true)
    (rest : Text) : Ascii.stripName? name (written ++ rest) = some rest := by
  have hlen := length_of_sameName h
  rw [Ascii.stripName?, if_neg (by simp [← hlen])]
  simp [← hlen, h]

theorem eq_of_stripName? {name t rest : Text} (h : Ascii.stripName? name t = some rest) :
    ∃ written, t = written ++ rest ∧ Ascii.sameName written name = true := by
  unfold Ascii.stripName? at h
  split at h
  · cases h
  · split at h
    · next hname =>
      cases h
      exact ⟨t.take name.length, (List.take_append_drop _ t).symm, hname⟩
    · cases h

theorem closeTag?_append {name written : Text} (hw : Ascii.sameName written name = true)
    {rest : Text} (hr : rest.head?.all endsName = true) :
    closeTag? name ('/' :: (written ++ rest)) = some (afterBracket rest) := by
  rw [closeTag?, stripName?_append hw]
  exact if_pos hr

theorem eq_of_closeTag? {name t after : Text} (h : closeTag? name t = some after) :
    ∃ written rest, t = '/' :: (written ++ rest) ∧ Ascii.sameName written name = true ∧
      rest.head?.all endsName = true := by
  unfold closeTag? at h
  split at h
  · next u =>
    split at h
    · next rest hrest =>
      split at h
      · next hall =>
        obtain ⟨written, rfl, hw⟩ := eq_of_stripName? hrest
        exact ⟨written, rest, rfl, hw, hall⟩
      · cases h
    · cases h
  · cases h

theorem prefix_of_cutCloseTag? {name t before after : Text}
    (h : cutCloseTag? name t = some (before, after)) : ∃ rest, t = before ++ rest := by
  induction t generalizing before after with
  | nil => cases h
  | cons c cs ih =>
    unfold cutCloseTag? at h
    split at h
    · cases h
      exact ⟨c :: cs, rfl⟩
    · obtain ⟨⟨b, a⟩, hb, he⟩ := Option.map_eq_some_iff.1 h
      cases he
      obtain ⟨rest, hrest⟩ := ih hb
      exact ⟨rest, by rw [hrest, List.cons_append]⟩

theorem closeTag?_isSome_of_closes {name t : Text} {c : Char} (h : Closes name (c :: t))
    (ht : ¬Closes name t) (rest : Text) :
    c = '<' ∧ (closeTag? name (t ++ rest)).isSome = true := by
  obtain ⟨before, written, d, after, he, hw, hd⟩ := h
  cases before with
  | nil =>
    obtain ⟨rfl, rfl⟩ : c = '<' ∧ t = '/' :: (written ++ d :: after) := by simpa using he
    have hhead : (d :: after ++ rest).head?.all endsName = true := by simpa using hd
    have hclose := closeTag?_append hw hhead
    exact ⟨rfl, by simpa using congrArg Option.isSome hclose⟩
  | cons b before =>
    obtain ⟨-, rfl⟩ : c = b ∧ t = before ++ "</".toList ++ written ++ d :: after := by
      simpa using he
    exact absurd ⟨before, written, d, after, rfl, hw, hd⟩ ht

theorem not_closes_of_cutCloseTag? {name t before after : Text}
    (h : cutCloseTag? name t = some (before, after)) : ¬Closes name before := by
  induction t generalizing before after with
  | nil => cases h
  | cons c cs ih =>
    unfold cutCloseTag? at h
    split at h
    · cases h
      exact not_closes_nil name
    · next hfirst =>
      obtain ⟨⟨b, a⟩, hb, he⟩ := Option.map_eq_some_iff.1 h
      cases he
      intro hcloses
      obtain ⟨rest, hrest⟩ := prefix_of_cutCloseTag? hb
      obtain ⟨rfl, hsome⟩ := closeTag?_isSome_of_closes hcloses (ih hb) rest
      rw [if_pos rfl, hrest] at hfirst
      rw [hfirst] at hsome
      cases hsome

theorem not_closes_of_cutCloseTag?_none {name t : Text} (h : cutCloseTag? name t = none) :
    ¬Closes name t := by
  induction t with
  | nil => exact not_closes_nil name
  | cons c cs ih =>
    unfold cutCloseTag? at h
    split at h
    · cases h
    · next hfirst =>
      intro hcloses
      obtain ⟨rfl, hsome⟩ :=
        closeTag?_isSome_of_closes hcloses (ih (Option.map_eq_none_iff.1 h)) []
      rw [List.append_nil] at hsome
      rw [if_pos rfl] at hfirst
      rw [hfirst] at hsome
      cases hsome

/-- A character that is no letter stands in a name as it is. -/
theorem mem_of_sameName {c : Char} (hc : c.isAlpha = false) {written name : Text}
    (h : Ascii.sameName written name = true) (hw : c ∈ written) : c ∈ name := by
  have hlower : Ascii.lower written = Ascii.lower name := by simpa [Ascii.sameName] using h
  have hmem : c ∈ Ascii.lower name :=
    hlower ▸ List.mem_map.2 ⟨c, hw, (Ascii.toLower_eq_iff hc).2 rfl⟩
  obtain ⟨d, hd, he⟩ := List.mem_map.1 hmem
  rwa [(Ascii.toLower_eq_iff hc).1 he] at hd

theorem cutCloseTag?_append {name : Text} (hn : '<' ∉ name) {t : Text} (ht : ¬Closes name t)
    (rest : Text) : cutCloseTag? name (t ++ ('<' :: '/' :: (name ++ '>' :: rest))) =
      some (t, rest) := by
  induction t with
  | nil =>
    have hname : Ascii.sameName name name = true := by simp [Ascii.sameName]
    have hhead : ('>' :: rest).head?.all endsName = true := by simp [endsName]
    have hclose := closeTag?_append hname hhead
    simp [cutCloseTag?, hclose, afterBracket]
  | cons c cs ih =>
    have hcs : ¬Closes name cs := fun h => ht (closes_of_cons h)
    rw [List.cons_append, cutCloseTag?, ih hcs]
    split
    · next after hfirst =>
      exfalso
      split at hfirst
      · next hc =>
        subst hc
        obtain ⟨written, rest', he, hw, hr⟩ := eq_of_closeTag? hfirst
        cases cs with
        | nil => simp at he
        | cons d ds =>
          obtain ⟨rfl, hds⟩ : d = '/' ∧
              ds ++ ('<' :: '/' :: (name ++ '>' :: rest)) = written ++ rest' := by simpa using he
          -- The close tag that is found cannot run into the one that follows.
          rcases List.append_eq_append_iff.1 hds with ⟨u, rfl, hu⟩ | ⟨u, rfl, rfl⟩
          · cases u with
            | nil =>
              have hrest' : rest' = '<' :: '/' :: (name ++ '>' :: rest) := by simpa using hu.symm
              rw [hrest'] at hr
              revert hr
              simp [endsName, Ascii.isBlank]
            | cons e u =>
              obtain ⟨rfl, -⟩ : '<' = e ∧ _ := by simpa using hu
              exact hn (mem_of_sameName (by decide) hw (by simp))
          · cases u with
            | nil =>
              revert hr
              simp [endsName, Ascii.isBlank]
            | cons e u =>
              have he : endsName e = true := by simpa using hr
              exact ht ⟨[], written, e, u, by simp, hw, he⟩
      · cases hfirst
    · rfl

end Tag

/-! ### The tokens of a fragment -/

def plaintextName : Text := "plaintext".toList

/-- Whether a text can be the body of an HTML element of a name: where markup is not read it holds
no close tag, unless nothing closes the element. -/
def IsBody (name t : Text) : Prop :=
  isRawText name = true → name ≠ plaintextName → ¬Tag.Closes name t

theorem isBody_of_not_mem {name t : Text} (ht : '<' ∉ t) : IsBody name t :=
  fun _ _ h => ht (Tag.mem_of_closes h)

namespace Token

theorem eq_of_opensBody? {t : Token} {name : Text} (h : t.opensBody? = some name) :
    (∃ as, t = .startTag name as false) ∧ (isRawText name || isEscapable name) = true := by
  unfold opensBody? at h
  split at h
  · next n as =>
    split at h
    · next hn =>
      cases h
      exact ⟨⟨as, rfl⟩, hn⟩
    · cases h
  · cases h

end Token

namespace Scanner

theorem not_isRawText_of_isEscapable {name : Text} (h : isEscapable name = true) :
    isRawText name = false := by
  have hnames : ∀ n ∈ escapableNames, isRawText n = false := by decide
  exact hnames name (by simpa [isEscapable] using h)

/-- What is read of a body: all that is left if nothing closes it, and else the body, its end tag,
and a shorter text. -/
theorem readBody_cases (name t : Text) :
    (name = plaintextName ∧ readBody name t = (Token.ofRun t, [])) ∨
      ∃ c rest, readBody name t = (Token.ofRun c ++ [.endTag name], rest) ∧
        rest.length ≤ t.length ∧ name ≠ plaintextName ∧ IsBody name c := by
  by_cases hname : name = plaintextName
  · exact .inl ⟨hname, if_pos hname⟩
  · have hread : readBody name t = _ := if_neg hname
    refine .inr ⟨_, _, hread, ?_, hname, ?_⟩
    · have hle := (length_readBody name t).2
      rw [hread] at hle
      exact hle
    · intro hraw _
      have hesc : isEscapable name = false := by
        cases h : isEscapable name with
        | false => rfl
        | true =>
          rw [not_isRawText_of_isEscapable h] at hraw
          cases hraw
      rw [hesc]
      cases hcut : Tag.cutCloseTag? name t with
      | none => exact Tag.not_closes_of_cutCloseTag?_none hcut
      | some p => exact Tag.not_closes_of_cutCloseTag? (show _ = some (p.1, p.2) from hcut)

end Scanner

/-- The shape of the tokens of a fragment. -/
inductive Scanned : Builder → List Token → Prop where
  | nil {b : Builder} : Scanned b []
  /-- A token that starts no body, or that of a foreign element. -/
  | token {b : Builder} {t : Token} {ts : List Token} (ht : t.WellFormed)
      (hforeign : ∀ name, t.opensBody? = some name → (b.push t).1.current.isHtml = false)
      (hts : Scanned (b.push t).1 ts) : Scanned b (t :: ts)
  /-- The start tag, the body and the end tag of an HTML element. -/
  | body {b : Builder} {t : Token} {name c : Text} {ts : List Token} (ht : t.WellFormed)
      (hname : t.opensBody? = some name) (hhtml : (b.push t).1.current.isHtml = true)
      (hc : IsBody name c)
      (hts : Scanned (b.after (t :: (Token.ofRun c ++ [.endTag name]))) ts) :
      Scanned b (t :: (Token.ofRun c ++ .endTag name :: ts))
  /-- An HTML element that nothing closes. -/
  | plaintext {b : Builder} {t : Token} {c : Text} (ht : t.WellFormed)
      (hname : t.opensBody? = some plaintextName) (hhtml : (b.push t).1.current.isHtml = true) :
      Scanned b (t :: Token.ofRun c)

namespace Scanned

theorem ofRun {b : Builder} {run : Text} {ts : List Token}
    (h : Scanned (b.after (Token.ofRun run)) ts) : Scanned b (Token.ofRun run ++ ts) := by
  unfold Token.ofRun at h ⊢
  split
  · next hrun =>
    rw [if_pos hrun] at h
    exact h
  · next hrun =>
    rw [if_neg hrun] at h
    exact .token hrun (fun name hname => nomatch hname) h

end Scanned

/-- **The tokens of a text have the shape of a fragment**, in whatever state they are taken. -/
theorem scanned_tokens (b : Builder) (t : Text) : Scanned b (b.tokens { rest := t }) := by
  induction hn : t.length using Nat.strongRecOn generalizing b t with
  | ind n ih =>
    subst hn
    rcases hpull : Scanner.pull t with ⟨run, _ | token, rest⟩
    · have hnil : Scanned b (Token.ofRun run ++ []) := .ofRun .nil
      rwa [List.append_nil, ← Builder.tokens_of_pull_none b hpull] at hnil
    · have hlt : rest.length < t.length := by
        have := (Scanner.length_pull_le t).2.1
        rw [hpull] at this
        exact this rfl
      have ht : token.WellFormed := Scanner.wellFormed_of_pull hpull
      rw [Builder.tokens_of_pull_some b hpull]
      refine .ofRun ?_
      rw [Builder.after_append]
      generalize b.after (Token.ofRun run) = b
      have hrest (b : Builder) := ih rest.length hlt b rest rfl
      cases hbody : token.opensBody? with
      | none => exact .token ht (by simp [hbody]) (hrest _)
      | some name =>
        cases hhtml : (b.push token).1.current.isHtml with
        | false =>
          refine .token ht (fun _ _ => hhtml) ?_
          simp only [Builder.after_cons, Builder.after_nil]
          rw [Builder.tokens_foreign hhtml]
          exact hrest _
        | true =>
          simp only [Builder.after_cons, Builder.after_nil]
          rcases Scanner.readBody_cases name rest with ⟨rfl, hread⟩ | ⟨c, rest', hread, hle, -, hc⟩
          · rw [Builder.tokens_body hhtml hread, Builder.tokens_nil, List.append_nil]
            exact .plaintext ht hbody hhtml
          · rw [Builder.tokens_body hhtml hread, List.append_assoc]
            exact .body ht hbody hhtml hc (ih rest'.length (by omega) _ rest' rfl)

end Stencil.Html
