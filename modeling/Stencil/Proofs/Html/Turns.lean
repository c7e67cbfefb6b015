import Stencil.Html.Fragment

/-!
# Turns

Parsing takes turns: the scanner gives a token, the builder takes it. `Builder.tokens` are the
tokens of a fragment in the order of the turns, `Builder.turns` pairs each with the state in which
the builder takes it, and `Builder.consume_eq_build` says that parsing is building from the tokens.

The equations of `tokens` follow the scanner from one resting state to the next, in which nothing
is ready and no body is pending: up to a token that is not text (`tokens_of_pull`), or through a
body (`tokens_body`).
-/

namespace Stencil.Html

namespace Builder

/-- The tokens that are left, taken turn by turn. -/
def tokens (b : Builder) (s : Scanner) : List Token :=
  match h : s.next b.current.isHtml with
  | (some t, s') =>
    have : s'.size < s.size := by
      have := Scanner.size_next (show (s.next b.current.isHtml).1 = some t by rw [h])
      rwa [h] at this
    t :: (b.push t).1.tokens s'
  | (none, _) => []
termination_by s.size

/-- The events of tokens, with those of the end of the fragment. -/
def build (b : Builder) : List Token → List Event
  | [] => b.finish
  | t :: ts => (b.push t).2 ++ (b.push t).1.build ts

/-- The state after tokens. -/
def after (b : Builder) (ts : List Token) : Builder := ts.foldl (fun b t => (b.push t).1) b

/-- Tokens, each with the state in which it is taken. -/
def turns (b : Builder) : List Token → List (Builder × Token)
  | [] => []
  | t :: ts => (b, t) :: (b.push t).1.turns ts

@[simp] theorem after_nil (b : Builder) : b.after [] = b := rfl

@[simp] theorem after_cons (b : Builder) (t : Token) (ts : List Token) :
    b.after (t :: ts) = (b.push t).1.after ts := rfl

theorem after_append (b : Builder) (ts us : List Token) :
    b.after (ts ++ us) = (b.after ts).after us := List.foldl_append

theorem turns_append (b : Builder) (ts us : List Token) :
    b.turns (ts ++ us) = b.turns ts ++ (b.after ts).turns us := by
  induction ts generalizing b with
  | nil => rfl
  | cons t ts ih => simp [turns, ih]

/-- Parsing is building from the tokens. -/
theorem consume_eq_build (b : Builder) (s : Scanner) : b.consume s = b.build (b.tokens s) := by
  fun_induction consume b s with
  | case1 b s t s' h hlt b' events hpush ih =>
    rw [tokens]
    split
    · next h' =>
      rw [h] at h'
      cases h'
      rw [build, hpush, ih]
    · next h' =>
      rw [h] at h'
      cases h'
  | case2 b s s' h =>
    rw [tokens]
    split
    · next h' =>
      rw [h] at h'
      cases h'
    · rfl

/-! ### From one resting state to the next -/

theorem tokens_of_next_some {b : Builder} {s s' : Scanner} {t : Token}
    (h : s.next b.current.isHtml = (some t, s')) : b.tokens s = t :: (b.push t).1.tokens s' := by
  rw [tokens]
  split
  · next h' =>
    rw [h] at h'
    cases h'
    rfl
  · next h' =>
    rw [h] at h'
    cases h'

theorem tokens_of_next_none {b : Builder} {s s' : Scanner}
    (h : s.next b.current.isHtml = (none, s')) : b.tokens s = [] := by
  rw [tokens]
  split
  · next h' =>
    rw [h] at h'
    cases h'
  · rfl

theorem tokens_ready (b : Builder) (s : Scanner) :
    b.tokens s = s.ready ++ (b.after s.ready).tokens { s with ready := [] } := by
  obtain ⟨rest, ready, body⟩ := s
  induction ready generalizing b with
  | nil => rfl
  | cons t ts ih =>
    have hnext : Scanner.next ⟨rest, t :: ts, body⟩ b.current.isHtml =
        (some t, ⟨rest, ts, body⟩) := rfl
    rw [tokens_of_next_some hnext, ih]
    rfl

theorem tokens_refill (b : Builder) {s : Scanner} (hs : s.ready = []) :
    b.tokens s = (s.refill b.current.isHtml).ready ++
      if (s.refill b.current.isHtml).ready = [] then []
      else (b.after (s.refill b.current.isHtml).ready).tokens
        { s.refill b.current.isHtml with ready := [] } := by
  have hnext : s.next b.current.isHtml =
      ((s.refill b.current.isHtml).ready.head?,
        { s.refill b.current.isHtml with ready := (s.refill b.current.isHtml).ready.tail }) := by
    rw [Scanner.next, if_pos hs]
  cases hr : (s.refill b.current.isHtml).ready with
  | nil =>
    rw [hr] at hnext
    simp [tokens_of_next_none hnext]
  | cons t ts =>
    rw [hr] at hnext
    rw [tokens_of_next_some hnext, tokens_ready, if_neg (List.cons_ne_nil t ts)]
    rfl

theorem tokens_nil (b : Builder) : b.tokens { rest := [] } = [] := by
  rw [tokens_refill b rfl]
  simp [Scanner.refill, Scanner.readPending, Scanner.pull]

/-- The text that is pulled when no other token comes after it is the whole rest. -/
theorem pull_none {t run after : Text} (h : Scanner.pull t = (run, none, after)) : after = [] := by
  fun_induction Scanner.pull t generalizing run after with
  | case1 =>
    cases h
    rfl
  | case2 c cs hle t rest hread hlt run' token after' hp ih =>
    rw [hp] at ih
    cases h
    exact ih rfl
  | case3 c cs hle rest hread hlt ih => exact ih h
  | case4 => cases h

/-- From a resting state: text up to the end. -/
theorem tokens_of_pull_none (b : Builder) {t run rest : Text}
    (h : Scanner.pull t = (run, none, rest)) : b.tokens { rest := t } = Token.ofRun run := by
  have hrefill : Scanner.refill { rest := t } b.current.isHtml =
      { rest := [], ready := Token.ofRun run } := by
    simp [Scanner.refill, Scanner.readPending, h, pull_none h]
  rw [tokens_refill b rfl, hrefill]
  split
  · exact List.append_nil _
  · rw [tokens_nil, List.append_nil]

/-- From a resting state: text up to a token that is not text. -/
theorem tokens_of_pull_some (b : Builder) {t run rest : Text} {token : Token}
    (h : Scanner.pull t = (run, some token, rest)) :
    b.tokens { rest := t } = Token.ofRun run ++ token ::
      (b.after (Token.ofRun run ++ [token])).tokens { rest, body := token.opensBody? } := by
  have hrefill : Scanner.refill { rest := t } b.current.isHtml =
      { rest, ready := Token.ofRun run ++ [token], body := token.opensBody? } := by
    simp [Scanner.refill, Scanner.readPending, h]
  rw [tokens_refill b rfl, hrefill, if_neg (by simp)]
  simp

theorem tokens_foreign {b : Builder} (hb : b.current.isHtml = false) (t : Text)
    (body : Option Text) : b.tokens { rest := t, body } = b.tokens { rest := t } := by
  have hrefill : Scanner.refill { rest := t, body } b.current.isHtml =
      Scanner.refill { rest := t } b.current.isHtml := by
    cases body <;> simp [Scanner.refill, Scanner.readPending, hb]
  rw [tokens_refill b rfl, tokens_refill b rfl, hrefill]

theorem tokens_body {b : Builder} (hb : b.current.isHtml = true) {name t rest : Text}
    {ts : List Token} (h : Scanner.readBody name t = (ts, rest)) :
    b.tokens { rest := t, body := some name } = ts ++ (b.after ts).tokens { rest } := by
  cases ts with
  | nil =>
    have hrefill : Scanner.refill { rest := t, body := some name } b.current.isHtml =
        Scanner.refill { rest } b.current.isHtml := by
      simp [Scanner.refill, Scanner.readPending, hb, h]
    rw [tokens_refill b rfl, hrefill, ← tokens_refill b rfl]
    rfl
  | cons u us =>
    have hrefill : Scanner.refill { rest := t, body := some name } b.current.isHtml =
        { rest, ready := u :: us } := by
      simp [Scanner.refill, Scanner.readPending, hb, h]
    rw [tokens_refill b rfl, hrefill, if_neg (List.cons_ne_nil u us)]

end Builder

end Stencil.Html
