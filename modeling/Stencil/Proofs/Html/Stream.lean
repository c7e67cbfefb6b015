import Stencil.Proofs.Html.Draining

/-!
# Streams of tokens

What a scanner hands out call after call, whatever it is told of the elements that are opened:
`call` is the answer to each call, also to those after the last token. The calls give the tokens of
the text in order and then nothing (`call_eq_getElem?`), never more than there are characters
(`length_tokens_le`). Every token has the shape that its kind is written in, and no text stands next
to another (`shaped_call`). What the scanner is told makes a difference only right after a start
tag whose element may have a body (`call_congr`).
-/

namespace Stencil.Html

/-! ## Shape -/

namespace Token

/-- Whether a name holds no capital letter, no blank, no slash and no closing bracket. -/
def IsPlainName (name : Text) : Prop :=
  ∀ c ∈ name, c.isUpper = false ∧ Ascii.isBlank c = false ∧ c ≠ '/' ∧ c ≠ '>'

/-- Whether a name is that of a tag: it starts with a letter. -/
def IsTagName (name : Text) : Prop := name.head?.any Char.isAlpha = true ∧ IsPlainName name

/-- The shape of a token, character by character. -/
def Shaped : Token → Prop
  | .doctype _ => True
  | .startTag name attributes _ =>
    IsTagName name ∧ (attributes.map Prod.fst).Nodup ∧
      ∀ a ∈ attributes, a.1 ≠ [] ∧ IsPlainName a.1 ∧ '=' ∉ a.1.tail
  | .endTag name => IsTagName name
  | .comment t => ¬"-->".toList <:+: t
  | .text t => t ≠ []

end Token

/-- Tokens as a scanner hands them out: each can be written and read again, and no text stands next
to another. -/
structure IsStream (ts : List Token) : Prop where
  each : ∀ t ∈ ts, t.WellFormed
  apart : ∀ c d after, ¬.text c :: .text d :: after <:+ ts

namespace Scanner

/-- At most this many tokens are left: one for each character, one for each that is ready, and the
end tag of a body. -/
def remaining (s : Scanner) : Nat := s.rest.length + s.ready.length + s.body.toList.length

/-- Whether a body that is waited for is that of the token that is handed out last. -/
def Awaits (s : Scanner) : Prop :=
  ∀ name, s.body = some name → s.ready ≠ [] →
    ∃ ts token, s.ready = ts ++ [token] ∧ token.opensBody? = some name

variable (answers : Nat → Bool)

/-- The state after some calls, if call `k` is made with the `k`-th answer. -/
def after (s : Scanner) : Nat → Scanner
  | 0 => s
  | k + 1 => ((after s k).next (answers k)).2

/-- What call `k` gives. -/
def call (s : Scanner) (k : Nat) : Option Token := ((s.after answers k).next (answers k)).1

end Scanner

namespace Token

theorem isPlainName_of {name : Text} (hname : ∀ c ∈ name, Tag.endsName c = false)
    (hlower : Ascii.lower name = name) : IsPlainName name := by
  intro c hc
  have hends := hname c hc
  rw [Tag.endsName, Bool.or_eq_false_iff, Bool.or_eq_false_iff] at hends
  have hupper : c.isUpper = false := by
    rw [← hlower] at hc
    obtain ⟨d, -, rfl⟩ := List.mem_map.1 hc
    exact Ascii.isUpper_toLower d
  exact ⟨hupper, hends.1.1, of_decide_eq_false hends.1.2, of_decide_eq_false hends.2⟩

theorem isTagName_of {name : Text} (h : Tag.IsName name) (hlower : Ascii.lower name = name) :
    IsTagName name := by
  obtain ⟨c, cs, rfl, hc, hcs⟩ := h
  exact ⟨hc, isPlainName_of (List.forall_mem_cons.2 ⟨Tag.endsName_of_isAlpha hc, hcs⟩) hlower⟩

theorem WellFormed.shaped {t : Token} (h : t.WellFormed) : t.Shaped := by
  cases t with
  | doctype c => trivial
  | startTag name as slash =>
    obtain ⟨hname, hlower, has⟩ := h
    refine ⟨isTagName_of hname hlower, has.distinct, fun a ha => ?_⟩
    obtain ⟨⟨c, cs, hcons, hc, hcs⟩, hsmall⟩ := has.names a ha
    rw [hcons] at hsmall ⊢
    have hends : ∀ d ∈ cs, Tag.endsName d = false ∧ d ≠ '=' := by
      intro d hd
      simpa [Tag.inAttributeName] using hcs d hd
    refine ⟨List.cons_ne_nil c cs, isPlainName_of ?_ hsmall, fun hequals => ?_⟩
    · exact List.forall_mem_cons.2 ⟨hc, fun d hd => (hends d hd).1⟩
    · exact (hends _ hequals).2 rfl
  | endTag name => exact isTagName_of h.1 h.2
  | comment t => exact Text.not_infix_of_cut?_none h
  | text t => exact h

end Token

/-! ## Streams -/

namespace IsStream

theorem nil : IsStream [] where
  each t ht := absurd ht List.not_mem_nil
  apart c d after h := by cases List.suffix_nil.1 h

/-- A token that is not text goes before any tokens. -/
theorem cons {t : Token} {ts : List Token} (ht : t.WellFormed) (htext : ∀ c, t ≠ .text c)
    (h : IsStream ts) : IsStream (t :: ts) where
  each := List.forall_mem_cons.2 ⟨ht, h.each⟩
  apart c d after hsuffix := by
    rcases List.suffix_cons_iff.1 hsuffix with heq | hsuffix
    · exact htext c (List.cons.inj heq).1.symm
    · exact h.apart c d after hsuffix

theorem run (run : Text) {ts : List Token} (h : IsStream ts)
    (htext : ∀ c, ts.head? ≠ some (.text c)) : IsStream (Token.ofRun run ++ ts) := by
  unfold Token.ofRun
  split
  · exact h
  · next hrun =>
    refine ⟨List.forall_mem_cons.2 ⟨hrun, h.each⟩, fun c d after hsuffix => ?_⟩
    rcases List.suffix_cons_iff.1 hsuffix with heq | hsuffix
    · obtain rfl : _ :: after = ts := (List.cons.inj heq).2
      exact htext d rfl
    · exact h.apart c d after hsuffix

theorem ofRun (t : Text) : IsStream (Token.ofRun t) := by
  rw [← List.append_nil (Token.ofRun t)]
  exact IsStream.nil.run t nofun

end IsStream

theorem Lexeme.read_ne_text (c : Char) (cs t : Text) : (read c cs).1 ≠ .token (.text t) := by
  unfold read markup declaration comment doctype endTag startTag bogusComment
  intro h
  repeat' split at h
  all_goals cases h

theorem Lexeme.length_lt_of_startTag {c : Char} {cs name rest : Text}
    {as : List WrittenAttribute} {slash : Bool}
    (h : Lexeme.read c cs = (.token (.startTag name as slash), rest)) :
    rest.length < cs.length := by
  unfold Lexeme.read Lexeme.markup at h
  split at h
  · split at h
    · cases h
    · next d ds =>
      have hle := Lexeme.length_startTag_le d ds
      split at h
      · unfold Lexeme.declaration Lexeme.comment Lexeme.doctype Lexeme.bogusComment at h
        repeat' split at h
        all_goals cases h
      · split at h
        · cases h
        · split at h
          · unfold Lexeme.endTag Lexeme.bogusComment at h
            repeat' split at h
            all_goals cases h
          · split at h
            · rw [h] at hle
              exact Nat.lt_succ_of_le hle
            · cases h
  · cases h

namespace Scanner

/-- What is pulled after a run of text is no text. -/
theorem ne_text_of_pull {t run rest : Text} {token : Token} (h : pull t = (run, some token, rest))
    (c : Text) : token ≠ .text c := by
  fun_induction pull t generalizing run rest with
  | case1 => cases h
  | case2 d ds hle t rest' hread hlt run' token' after hp ih =>
    rw [hp] at ih
    cases h
    exact ih rfl
  | case3 d ds hle rest' hread hlt ih => exact ih h
  | case4 d ds hle t rest' hread =>
    cases h
    rintro rfl
    exact Lexeme.read_ne_text d ds c (by rw [hread])

variable (answers : Nat → Bool)

/-- A body of a foreign element is no body. -/
theorem tokens_foreign {k : Nat} (hforeign : answers k = false) (t : Text) (body : Option Text) :
    tokens answers k { rest := t, body } = tokens answers k { rest := t } := by
  have hrefill : refill { rest := t, body } (answers k) = refill { rest := t } (answers k) := by
    cases body <;> simp [refill, readPending, hforeign]
  rw [tokens_refill answers k rfl, tokens_refill answers k rfl, hrefill]

/-- **The tokens of a text are a stream**, from every state in which nothing is ready. -/
theorem isStream_tokens (k : Nat) (t : Text) {body : Option Text}
    (hbody : ∀ name, body = some name → Tag.IsName name ∧ Ascii.lower name = name) :
    IsStream (tokens answers k { rest := t, body }) := by
  induction hn : t.length using Nat.strongRecOn generalizing k t body with
  | ind n ih =>
    subst hn
    -- With no body to wait for, a run of text and a token are pulled, and less is left.
    have hrest (k : Nat) {u : Text} (hu : u.length ≤ t.length) :
        IsStream (tokens answers k { rest := u }) := by
      rcases hpull : pull u with ⟨run, _ | token, rest⟩
      · rw [tokens_of_pull_none answers k hpull]
        exact .ofRun run
      · have hlt : rest.length < u.length := by
          have hle := (length_pull_le u).2.1
          rw [hpull] at hle
          exact hle rfl
        have htoken := wellFormed_of_pull hpull
        have htext := ne_text_of_pull hpull
        rw [tokens_of_pull_some answers k hpull]
        refine .run run (.cons htoken htext (ih rest.length (by omega) _ rest ?_ rfl))
          fun c hc => ?_
        · intro name hname
          obtain ⟨⟨as, rfl⟩, -⟩ := Token.eq_of_opensBody? hname
          exact ⟨htoken.1, htoken.2.1⟩
        · exact htext c (Option.some.inj hc)
    cases body with
    | none => exact hrest k (Nat.le_refl _)
    | some name =>
      cases hhtml : answers k with
      | false =>
        rw [tokens_foreign answers hhtml]
        exact hrest k (Nat.le_refl _)
      | true =>
        rcases readBody_cases name t with ⟨-, hread⟩ | ⟨c, rest, hread, hle, -, -⟩
        · rw [tokens_body answers k hhtml hread, tokens_nil, List.append_nil]
          exact .ofRun t
        · rw [tokens_body answers k hhtml hread, List.append_assoc]
          exact .run c (.cons (hbody name rfl) nofun (hrest _ hle)) nofun

/-! ## Calls -/

theorem refill_of_ready_nil {s : Scanner} {html : Bool} (h : (s.refill html).ready = []) :
    s.refill html = { rest := [] } := by
  unfold refill at h ⊢
  split at h
  · next rest hp =>
    rcases hpull : pull rest with ⟨run, _ | token, after⟩
    · rw [hpull] at h
      obtain rfl : after = [] := Builder.pull_none hpull
      simpa using h
    · rw [hpull] at h
      simp at h
  · next tokens rest hne hp => exact absurd h hne

theorem next_of_none {s : Scanner} {html : Bool} (h : (s.next html).1 = none) :
    s.next html = (none, { rest := [] }) := by
  unfold next at h ⊢
  dsimp only at h ⊢
  split at h
  · next hready =>
    rw [if_pos hready, refill_of_ready_nil (List.head?_eq_none_iff.1 h)]
    rfl
  · next hready => exact absurd (List.head?_eq_none_iff.1 h) hready

theorem head?_tokens (k : Nat) (s : Scanner) :
    (tokens answers k s).head? = (s.next (answers k)).1 := by
  rcases hnext : s.next (answers k) with ⟨_ | token, s'⟩
  · rw [tokens_of_next_none hnext]
    rfl
  · rw [tokens_of_next_some hnext]
    rfl

theorem tail_tokens (k : Nat) (s : Scanner) :
    (tokens answers k s).tail = tokens answers (k + 1) (s.next (answers k)).2 := by
  rcases hnext : s.next (answers k) with ⟨_ | token, s'⟩
  · have hlast := next_of_none (show (s.next (answers k)).1 = none by rw [hnext])
    rw [hnext] at hlast
    obtain ⟨-, rfl⟩ := Prod.mk.inj hlast
    rw [tokens_of_next_none hnext, tokens_nil]
    rfl
  · rw [tokens_of_next_some hnext]
    rfl

/-- The tokens that are left after some calls are those that have not been given. -/
theorem tokens_after (s : Scanner) (k : Nat) :
    tokens answers k (s.after answers k) = (tokens answers 0 s).drop k := by
  induction k with
  | zero => rfl
  | succ k ih => rw [after, ← tail_tokens, ih, List.tail_drop]

/-- **The calls give the tokens in order, and then nothing.** -/
theorem call_eq_getElem? (s : Scanner) (k : Nat) :
    call answers s k = (tokens answers 0 s)[k]? := by
  rw [call, ← head?_tokens, tokens_after, List.head?_drop]

/-- **The shape of what is handed out.** Each token has its shape, and no text comes right after
another, whatever the scanner is told. -/
theorem shaped_call (t : Text) (k : Nat) :
    (∀ token, call answers { rest := t } k = some token → token.Shaped) ∧
      ∀ c d, ¬(call answers { rest := t } k = some (.text c) ∧
        call answers { rest := t } (k + 1) = some (.text d)) := by
  have hstream : IsStream (tokens answers 0 { rest := t }) := isStream_tokens answers 0 t nofun
  constructor
  · intro token htoken
    rw [call_eq_getElem?] at htoken
    exact (hstream.each token (List.mem_of_getElem? htoken)).shaped
  · rintro c d ⟨hc, hd⟩
    rw [call_eq_getElem?] at hc hd
    obtain ⟨hk, hc⟩ := List.getElem?_eq_some_iff.1 hc
    obtain ⟨hk', hd⟩ := List.getElem?_eq_some_iff.1 hd
    refine hstream.apart c d ((tokens answers 0 { rest := t }).drop (k + 2)) ?_
    rw [← hc, ← hd, ← List.drop_eq_getElem_cons, ← List.drop_eq_getElem_cons]
    exact List.drop_suffix k _

/-! ## How many tokens -/

/-- What is pulled is paid for by the characters that are read: one for the run of text, and two for
a start tag whose element may have a body. -/
theorem remaining_pull (t : Text) :
    (Token.ofRun (pull t).1).length + (pull t).2.1.toList.length +
      ((pull t).2.1.bind Token.opensBody?).toList.length + (pull t).2.2.length ≤ t.length := by
  fun_induction pull t with
  | case1 => exact Nat.le_refl _
  | case2 c cs _ t rest hread hlt run token after hp ih =>
    have hrun := Token.length_ofRun_le (t ++ run)
    rw [hp] at ih
    dsimp only at ih ⊢
    omega
  | case3 c cs _ rest hread hlt ih => omega
  | case4 c cs hle t rest hread =>
    rw [hread] at hle
    dsimp only at hle
    cases hbody : t.opensBody? with
    | none =>
      simp [hbody]
      omega
    | some name =>
      obtain ⟨⟨as, rfl⟩, -⟩ := Token.eq_of_opensBody? hbody
      have hlt := Lexeme.length_lt_of_startTag hread
      simp [hbody]
      omega

/-- What is read of a body is paid for by its characters and by the body itself. -/
theorem remaining_readBody (name t : Text) :
    (readBody name t).1.length + (readBody name t).2.length ≤ t.length + 1 := by
  have hrun (read : Text → Text) (hread : read [] = []) (u : Text) :
      (Token.ofRun (read u)).length ≤ u.length := by
    cases u with
    | nil => rw [hread]; exact Nat.le_refl _
    | cons c u => exact Nat.le_trans (Token.length_ofRun_le _) (Nat.succ_le_succ (Nat.zero_le _))
  unfold readBody
  split
  · exact Nat.le_succ_of_le (hrun id rfl t)
  · have hcontent := hrun (fun u => if isEscapable name then Reference.decode u else u)
      (by simp only [Reference.decode_nil, ite_self]) ((Tag.cutCloseTag? name t).getD (t, [])).1
    have hcut : ((Tag.cutCloseTag? name t).getD (t, [])).1.length +
        ((Tag.cutCloseTag? name t).getD (t, [])).2.length ≤ t.length := by
      cases h : Tag.cutCloseTag? name t with
      | none => exact Nat.le_refl _
      | some p => exact Nat.le_of_lt (Tag.length_of_cutCloseTag? h)
    dsimp only
    rw [List.length_append, List.length_singleton]
    omega

theorem remaining_readPending (s : Scanner) (html : Bool) :
    (s.readPending html).1.length + (s.readPending html).2.length ≤
      s.rest.length + s.body.toList.length := by
  unfold readPending
  split
  · next name hbody =>
    rw [hbody]
    split
    · exact remaining_readBody name s.rest
    · exact Nat.le_trans (Nat.le_of_eq (Nat.zero_add _)) (Nat.le_add_right _ _)
  · exact Nat.le_trans (Nat.le_of_eq (Nat.zero_add _)) (Nat.le_add_right _ _)

theorem remaining_refill {s : Scanner} (html : Bool) (hs : s.ready = []) :
    (s.refill html).remaining ≤ s.remaining := by
  have hpending := remaining_readPending s html
  unfold refill
  split
  · next rest hp =>
    have hpull := remaining_pull rest
    rw [hp] at hpending
    rcases hq : pull rest with ⟨run, token, after⟩
    rw [hq] at hpull
    simp only [remaining, hs, List.length_append, List.length_nil] at hpending hpull ⊢
    omega
  · next tokens rest _ hp =>
    rw [hp] at hpending
    simp only [remaining, hs, Option.toList_none, List.length_nil] at hpending ⊢
    omega

theorem remaining_next {s : Scanner} {html : Bool} {t : Token} (h : (s.next html).1 = some t) :
    (s.next html).2.remaining < s.remaining := by
  have htail (u : Scanner) (hu : u.ready.head? = some t) :
      Scanner.remaining { u with ready := u.ready.tail } < u.remaining := by
    obtain ⟨ts, hts⟩ := List.head?_eq_some_iff.1 hu
    simp only [remaining, hts, List.tail_cons, List.length_cons]
    omega
  unfold next at h ⊢
  dsimp only at h ⊢
  split at h
  · next hs =>
    rw [if_pos hs]
    exact Nat.lt_of_lt_of_le (htail _ h) (remaining_refill html hs)
  · next hs =>
    rw [if_neg hs]
    exact htail _ h

/-- **There are no more tokens than characters**, what is ready and a body apart. -/
theorem length_tokens_le (k : Nat) (s : Scanner) :
    (tokens answers k s).length ≤ s.remaining := by
  induction hn : s.remaining using Nat.strongRecOn generalizing k s with
  | ind n ih =>
    subst hn
    rcases hnext : s.next (answers k) with ⟨_ | token, s'⟩
    · rw [tokens_of_next_none hnext]
      exact Nat.zero_le _
    · have hlt : s'.remaining < s.remaining := by
        have hlt := remaining_next (show (s.next (answers k)).1 = some token by rw [hnext])
        rwa [hnext] at hlt
      rw [tokens_of_next_some hnext, List.length_cons]
      exact Nat.lt_of_le_of_lt (ih _ hlt (k + 1) s' rfl) hlt

/-! ## What the scanner is told -/

theorem awaits_refill (s : Scanner) (html : Bool) : (s.refill html).Awaits := by
  intro name hname _
  unfold refill at hname ⊢
  split at hname
  · next rest _ =>
    rcases hpull : pull rest with ⟨run, token, after⟩
    rw [hpull] at hname
    obtain ⟨token, rfl, hopens⟩ := Option.bind_eq_some_iff.1 hname
    exact ⟨Token.ofRun run, token, rfl, hopens⟩
  · cases hname

/-- What a call hands out, and what it leaves. -/
theorem next_cases (s : Scanner) (html : Bool) (h : s.Awaits) :
    ∃ u : Scanner, u.Awaits ∧ (u.ready = [] → u.body = none) ∧
      s.next html = (u.ready.head?, { u with ready := u.ready.tail }) := by
  by_cases hready : s.ready = []
  · refine ⟨s.refill html, awaits_refill s html, fun hnil => ?_, by rw [next, if_pos hready]⟩
    rw [refill_of_ready_nil hnil]
  · exact ⟨s, h, fun hnil => absurd hnil hready, by rw [next, if_neg hready]⟩

/-- A body is waited for until its start tag has been handed out. -/
theorem Awaits.next {s : Scanner} (h : s.Awaits) (html : Bool) : (s.next html).2.Awaits := by
  obtain ⟨u, hu, -, hnext⟩ := next_cases s html h
  rw [hnext]
  intro name hname hready
  have hne : u.ready ≠ [] := by
    rintro hnil
    exact hready (by rw [hnil]; rfl)
  obtain ⟨ts, token, hts, hopens⟩ := hu name hname hne
  cases ts with
  | nil => exact absurd (by rw [hts]; rfl) hready
  | cons t ts => exact ⟨ts, token, by rw [hts]; rfl, hopens⟩

/-- The call before a body can be read gave its start tag. -/
theorem Awaits.opensBody? {s : Scanner} (h : s.Awaits) {html : Bool} {name : Text}
    (hready : (s.next html).2.ready = []) (hbody : (s.next html).2.body = some name) :
    ∃ token, (s.next html).1 = some token ∧ token.opensBody? = some name := by
  obtain ⟨u, hu, hnone, hnext⟩ := next_cases s html h
  rw [hnext] at hready hbody ⊢
  have hne : u.ready ≠ [] := by
    intro hnil
    rw [show u.body = some name from hbody] at hnone
    cases hnone hnil
  obtain ⟨ts, token, hts, hopens⟩ := hu name hbody hne
  cases ts with
  | nil => exact ⟨token, by rw [hts]; rfl, hopens⟩
  | cons t ts =>
    rw [show u.ready.tail = ts ++ [token] by rw [hts]; rfl] at hready
    cases List.append_eq_nil_iff.1 hready |>.2

theorem awaits_after {s : Scanner} (h : s.Awaits) (k : Nat) : (s.after answers k).Awaits := by
  induction k with
  | zero => exact h
  | succ k ih => exact ih.next (answers k)

/-- What the scanner is told matters only if nothing is ready and a body is waited for. -/
theorem next_congr {s : Scanner} (h : s.ready = [] → s.body = none) (html html' : Bool) :
    s.next html = s.next html' := by
  unfold next
  by_cases hready : s.ready = []
  · have hrefill : s.refill html = s.refill html' := by
      unfold refill readPending
      rw [h hready]
    rw [if_pos hready, if_pos hready, hrefill]
  · rw [if_neg hready, if_neg hready]

/-- Two runs on a text stay together as long as they are told the same where it matters. -/
theorem next_after_congr {a b : Nat → Bool} {t : Text}
    (h : ∀ k token, call a { rest := t } k = some token → call b { rest := t } k = some token →
      token.opensBody?.isSome = true → a (k + 1) = b (k + 1)) (k : Nat) :
    (after a { rest := t } k).next (a k) = (after b { rest := t } k).next (b k) := by
  have hstart : Awaits { rest := t } := nofun
  induction k with
  | zero => exact next_congr (fun _ => rfl) (a 0) (b 0)
  | succ k ih =>
    have hstate : after a { rest := t } (k + 1) = after b { rest := t } (k + 1) :=
      congrArg Prod.snd ih
    rw [← hstate]
    by_cases hbody : (after a { rest := t } (k + 1)).ready = [] →
        (after a { rest := t } (k + 1)).body = none
    · exact next_congr hbody (a (k + 1)) (b (k + 1))
    · -- A body is waited for, so the call before gave its start tag, and to both.
      obtain ⟨hready, hsome⟩ := Classical.not_imp.1 hbody
      obtain ⟨name, hname⟩ := Option.ne_none_iff_exists'.1 hsome
      obtain ⟨token, htoken, hopens⟩ := (awaits_after a hstart k).opensBody? hready hname
      have hother : call b { rest := t } k = some token := (congrArg Prod.fst ih).symm.trans htoken
      rw [h k token htoken hother (by rw [hopens]; rfl)]

/-- **What the scanner is told matters only right after a start tag whose element may have a
body**: two runs that are told the same there are handed out the same tokens. -/
theorem call_congr {a b : Nat → Bool} (t : Text)
    (h : ∀ k token, call a { rest := t } k = some token → call b { rest := t } k = some token →
      token.opensBody?.isSome = true → a (k + 1) = b (k + 1)) (k : Nat) :
    call a { rest := t } k = call b { rest := t } k :=
  congrArg Prod.fst (next_after_congr h k)

/-- A title after a text, with the signs of markup in it. -/
def titledFragment : Text := "a<title>&lt;<b></title><i>".toList

/-- Being told only in front of the body of the title that it is an HTML element is enough. -/
theorem call_congr_titledFragment :
    (∀ k token, call (fun _ => true) { rest := titledFragment } k = some token →
      call (fun k => k = 2) { rest := titledFragment } k = some token →
        token.opensBody?.isSome = true → true = decide (k + 1 = 2)) ∧
    ∀ k, call (fun _ => true) { rest := titledFragment } k =
      call (fun k => k = 2) { rest := titledFragment } k := by
  have htokens : tokens (fun _ => true) 0 { rest := titledFragment } =
      [.text "a".toList, .startTag "title".toList [] false, .text "<<b>".toList,
        .endTag "title".toList, .startTag "i".toList [] false] := by decide +kernel
  have hagree : ∀ k token, call (fun _ => true) { rest := titledFragment } k = some token →
      call (fun k => k = 2) { rest := titledFragment } k = some token →
        token.opensBody?.isSome = true → true = decide (k + 1 = 2) := by
    intro k token htoken _ hopens
    rw [call_eq_getElem?, htokens] at htoken
    match k with
    | 0 | 2 | 3 | 4 =>
      cases htoken
      cases hopens
    | 1 => rfl
    | k + 5 => cases htoken
  exact ⟨hagree, call_congr titledFragment hagree⟩

end Scanner

end Stencil.Html
