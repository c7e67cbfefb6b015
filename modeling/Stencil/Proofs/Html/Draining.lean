import Stencil.Proofs.Html.Readback

/-!
# Draining

The tokens of a scanner that is asked for one after another, `Scanner.tokens`, whatever it is told
of the elements that are opened. As for turns, the equations follow the scanner from one resting
state to the next, in which nothing is ready and no body is pending: through text (`tokens_text`),
up to a token that is not text (`tokens_token`), or through a body (`tokens_body`).
-/

namespace Stencil.Html.Scanner

/-- The tokens that are left, if call `k` is made with the `k`-th answer. -/
def tokens (answers : Nat → Bool) (k : Nat) (s : Scanner) : List Token := (drain answers k s).1

variable (answers : Nat → Bool) (k : Nat)

section

variable {answers k}

theorem tokens_of_next_some {s s' : Scanner} {t : Token}
    (h : s.next (answers k) = (some t, s')) :
    tokens answers k s = t :: tokens answers (k + 1) s' := by
  rw [tokens, drain]
  split
  · next h' =>
    rw [h] at h'
    cases h'
    rfl
  · next h' =>
    rw [h] at h'
    cases h'

theorem tokens_of_next_none {s s' : Scanner} (h : s.next (answers k) = (none, s')) :
    tokens answers k s = [] := by
  rw [tokens, drain]
  split
  · next h' =>
    rw [h] at h'
    cases h'
  · rfl

end

theorem tokens_ready (s : Scanner) : tokens answers k s =
    s.ready ++ tokens answers (k + s.ready.length) { s with ready := [] } := by
  obtain ⟨rest, ready, body⟩ := s
  induction ready generalizing k with
  | nil => rfl
  | cons t ts ih =>
    have hnext : Scanner.next ⟨rest, t :: ts, body⟩ (answers k) = (some t, ⟨rest, ts, body⟩) := rfl
    have hindex : k + 1 + ts.length = k + (t :: ts).length := by
      rw [List.length_cons]
      omega
    rw [tokens_of_next_some hnext, ih, List.cons_append]
    dsimp only
    rw [hindex]

theorem tokens_refill {s : Scanner} (hs : s.ready = []) :
    tokens answers k s = (s.refill (answers k)).ready ++
      if (s.refill (answers k)).ready = [] then []
      else tokens answers (k + (s.refill (answers k)).ready.length)
        { s.refill (answers k) with ready := [] } := by
  have hnext : s.next (answers k) = ((s.refill (answers k)).ready.head?,
      { s.refill (answers k) with ready := (s.refill (answers k)).ready.tail }) := by
    rw [Scanner.next, if_pos hs]
  cases hr : (s.refill (answers k)).ready with
  | nil =>
    rw [hr] at hnext
    simp [tokens_of_next_none hnext]
  | cons t ts =>
    have hready := tokens_ready answers k (s.refill (answers k))
    rw [hr] at hnext hready
    rw [tokens_of_next_some hnext, if_neg (List.cons_ne_nil t ts), ← hready, ← tokens_of_next_some]
    rw [Scanner.next, if_neg (by rw [hr]; exact List.cons_ne_nil t ts), hr]
    rfl

theorem tokens_nil : tokens answers k { rest := [] } = [] := by
  rw [tokens_refill answers k rfl]
  simp [Scanner.refill, Scanner.readPending, Scanner.pull]

theorem tokens_of_pull_none {t run rest : Text} (h : pull t = (run, none, rest)) :
    tokens answers k { rest := t } = Token.ofRun run := by
  have hrefill : refill { rest := t } (answers k) = { rest := [], ready := Token.ofRun run } := by
    simp [refill, readPending, h, Builder.pull_none h]
  rw [tokens_refill answers k rfl, hrefill]
  split
  · exact List.append_nil _
  · rw [tokens_nil, List.append_nil]

theorem tokens_of_pull_some {t run rest : Text} {token : Token}
    (h : pull t = (run, some token, rest)) :
    tokens answers k { rest := t } = Token.ofRun run ++ token ::
      tokens answers (k + (Token.ofRun run).length + 1) { rest, body := token.opensBody? } := by
  have hrefill : refill { rest := t } (answers k) =
      { rest, ready := Token.ofRun run ++ [token], body := token.opensBody? } := by
    simp [refill, readPending, h]
  rw [tokens_refill answers k rfl, hrefill, if_neg (by simp)]
  simp [Nat.add_assoc]

theorem tokens_token {t rest : Text} {token : Token} (h : pull t = ([], some token, rest)) :
    tokens answers k { rest := t } =
      token :: tokens answers (k + 1) { rest, body := token.opensBody? } :=
  tokens_of_pull_some answers k h

/-- From a resting state: text up to a tag, a comment or the end, if it is pulled whole. -/
theorem tokens_of_pull_text {t u rest : Text} (hu : u ≠ [])
    (hpull : pull t = (u ++ (pull rest).1, (pull rest).2)) (hrest : Builder.Opens rest) :
    tokens answers k { rest := t } = .text u :: tokens answers (k + 1) { rest } := by
  have hrun : Token.ofRun u = [.text u] := if_neg hu
  have hempty := hrest.pull
  rw [hempty, List.append_nil] at hpull
  rcases hp : pull rest with ⟨run, _ | token, after⟩
  · rw [hp] at hpull hempty
    obtain rfl : run = [] := hempty
    rw [tokens_of_pull_none answers k hpull, tokens_of_pull_none answers _ hp, hrun]
    rfl
  · rw [hp] at hpull hempty
    obtain rfl : run = [] := hempty
    rw [tokens_of_pull_some answers k hpull, tokens_token answers _ hp, hrun]
    rfl

/-- From a resting state: text in front of a tag, a comment or the end. -/
theorem tokens_text {t rest : Text} (ht : t ≠ []) (hbracket : '<' ∉ t)
    (hrest : Builder.Opens rest) : tokens answers k { rest := t ++ rest } =
      .text (Reference.decode t) :: tokens answers (k + 1) { rest } :=
  tokens_of_pull_text answers k (Reference.decode_ne_nil ht) (pull_text ht hbracket hrest.head)
    hrest

/-- A pending body is read whole where the element is an HTML element. -/
theorem tokens_body (hhtml : answers k = true) {name t rest : Text} {ts : List Token}
    (h : readBody name t = (ts, rest)) : tokens answers k { rest := t, body := some name } =
      ts ++ tokens answers (k + ts.length) { rest } := by
  cases ts with
  | nil =>
    have hrefill : refill { rest := t, body := some name } (answers k) =
        refill { rest } (answers k) := by
      simp [refill, readPending, hhtml, h]
    rw [tokens_refill answers k rfl, hrefill, ← tokens_refill answers k rfl]
    rfl
  | cons u us =>
    have hrefill : refill { rest := t, body := some name } (answers k) =
        { rest, ready := u :: us } := by
      simp [refill, readPending, hhtml, h]
    rw [tokens_refill answers k rfl, hrefill, if_neg (List.cons_ne_nil u us)]

end Stencil.Html.Scanner
