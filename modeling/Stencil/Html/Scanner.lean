import Stencil.Html.Lexeme

/-!
# Scanner

Tokens are pulled from a fragment one at a time. Runs of text become one token each.
After a start tag such as `script` or `textarea` the scanner waits to be told whether the
element that was opened is an HTML element, and only then reads its body as text without
markup, up to the close tag; a body that is never closed runs to the end.

`next` is a step of a machine that ends: every token handed out makes `size` smaller.
-/

namespace Stencil.Html

/-- The state between two tokens. -/
structure Scanner where
  /-- The text not read yet. -/
  rest : Text
  /-- Tokens read but not handed out yet. -/
  ready : List Token := []
  /-- The name of the element whose body may start here. -/
  body : Option Text := none
  deriving DecidableEq, Repr

namespace Scanner

/-- Reads up to and including the next token that is not text: the run of text before it, the
token if the text does not end first, and what follows. -/
def pull : Text → Text × Option Token × Text
  | [] => ([], none, [])
  | c :: cs =>
    have := Lexeme.length_read_le c cs
    match h : Lexeme.read c cs with
    | (.text t, rest) =>
      have : rest.length < (c :: cs).length := by rw [h] at this; exact Nat.lt_succ_of_le this
      let (run, token, after) := pull rest
      (t ++ run, token, after)
    | (.nothing, rest) =>
      have : rest.length < (c :: cs).length := by rw [h] at this; exact Nat.lt_succ_of_le this
      pull rest
    | (.token t, rest) => ([], some t, rest)
termination_by t => t.length
decreasing_by all_goals simp only [List.length_cons] at *; omega

/-- Reads the body of the element `name` and its close tag. -/
def readBody (name t : Text) : List Token × Text :=
  if name = "plaintext".toList then (Token.ofRun t, [])
  else
    let (content, rest) := (Tag.cutCloseTag? name t).getD (t, [])
    let content := if isEscapable name then Reference.decode content else content
    (Token.ofRun content ++ [.endTag name], rest)

/-- The tokens of a pending body, if it is one, and the text after them. -/
def readPending (s : Scanner) (html : Bool) : List Token × Text :=
  match s.body with
  | some name => if html then readBody name s.rest else ([], s.rest)
  | none => ([], s.rest)

/-- Makes tokens ready, if there are any left. -/
def refill (s : Scanner) (html : Bool) : Scanner :=
  match s.readPending html with
  | ([], rest) =>
    let (run, token, after) := pull rest
    { rest := after, ready := Token.ofRun run ++ token.toList, body := token.bind Token.opensBody? }
  | (tokens, rest) => { rest, ready := tokens }

/-- The next token, if there is one, and the state after it. `html` says whether the element opened
last is an HTML element. -/
def next (s : Scanner) (html : Bool) : Option Token × Scanner :=
  let s := if s.ready = [] then s.refill html else s
  (s.ready.head?, { s with ready := s.ready.tail })

/-- A bound on the tokens that are left. -/
def size (s : Scanner) : Nat :=
  5 * s.rest.length + s.ready.length + 3 * s.body.toList.length

theorem length_pull_le (t : Text) :
    (pull t).2.2.length ≤ t.length ∧
      ((pull t).2.1.isSome → (pull t).2.2.length < t.length) ∧
        ((pull t).1 ≠ [] → (pull t).2.2.length < t.length) := by
  fun_induction pull t with
  | case1 => simp
  | case2 c cs _ t rest h hlt run token after hp ih =>
    simp only [hp] at ih
    dsimp only
    refine ⟨by omega, fun _ => by omega, fun _ => by omega⟩
  | case3 c cs _ rest h hlt ih =>
    refine ⟨by omega, fun _ => by omega, fun _ => by omega⟩
  | case4 c cs hle t rest h =>
    replace hle : rest.length ≤ cs.length := by rwa [h] at hle
    simp only [List.length_cons]
    refine ⟨by omega, fun _ => by omega, fun _ => by omega⟩

theorem length_readBody (name t : Text) :
    (readBody name t).1.length ≤ 2 ∧ (readBody name t).2.length ≤ t.length := by
  unfold readBody
  split
  · have := Token.length_ofRun_le t
    exact ⟨by dsimp only; omega, by simp⟩
  · have : ((Tag.cutCloseTag? name t).getD (t, [])).2.length ≤ t.length := by
      cases h : Tag.cutCloseTag? name t with
      | none => simp
      | some p =>
        have := Tag.length_of_cutCloseTag? h
        simp only [Option.getD_some]
        omega
    refine ⟨?_, this⟩
    simp only [List.length_append, List.length_singleton]
    exact Nat.succ_le_succ (Token.length_ofRun_le _)

theorem length_readPending {s : Scanner} {html : Bool} {tokens : List Token} {rest : Text}
    (h : s.readPending html = (tokens, rest)) :
    rest.length ≤ s.rest.length ∧ tokens.length ≤ 2 * s.body.toList.length := by
  unfold readPending at h
  split at h
  · next name hb =>
    split at h
    · have := length_readBody name s.rest
      rw [h] at this
      simpa [hb] using this.symm
    · cases h
      exact ⟨Nat.le_refl _, by simp⟩
  · cases h
    exact ⟨Nat.le_refl _, by simp⟩

/-- Refilling an empty state pays for the tokens made ready. -/
theorem size_refill_le {s : Scanner} (html : Bool) (hs : s.ready = []) :
    (s.refill html).size ≤ s.size := by
  unfold refill
  split
  · next rest hp =>
    have hrest := (length_readPending hp).1
    have hl := length_pull_le rest
    rcases hq : pull rest with ⟨run, token, after⟩
    rw [hq] at hl
    have hrun := Token.length_ofRun_le run
    obtain ⟨hle, htoken, hne⟩ := hl
    dsimp only at hle htoken hne
    simp only [size, hs, List.length_append, List.length_nil]
    cases token with
    | none =>
      simp only [Option.toList_none, Option.bind_none, List.length_nil]
      by_cases hr : run = []
      · rw [hr, Token.ofRun_nil, List.length_nil]
        omega
      · have := hne hr
        omega
    | some k =>
      have := htoken rfl
      have : (Token.opensBody? k).toList.length ≤ 1 := by cases Token.opensBody? k <;> simp
      simp only [Option.toList_some, Option.bind_some, List.length_singleton]
      omega
  · next tokens rest _ hp =>
    have := length_readPending hp
    simp only [size, hs, Option.toList_none, List.length_nil]
    omega

theorem size_next {s : Scanner} {html : Bool} {t : Token} (h : (s.next html).1 = some t) :
    (s.next html).2.size < s.size := by
  have key (u : Scanner) (hu : u.ready.head? = some t) :
      Scanner.size { u with ready := u.ready.tail } < u.size := by
    cases hr : u.ready with
    | nil => simp [hr] at hu
    | cons k ks =>
      simp only [size, hr, List.tail_cons, List.length_cons]
      omega
  unfold next at h ⊢
  split at h
  · next hs =>
    rw [if_pos hs]
    exact Nat.lt_of_lt_of_le (key _ h) (size_refill_le html hs)
  · next hs =>
    rw [if_neg hs]
    exact key _ h

/-- All tokens that are left, with the state after the last: call `k` is made with the `k`-th
answer. -/
def drain (answers : Nat → Bool) (k : Nat) (s : Scanner) : List Token × Scanner :=
  match h : s.next (answers k) with
  | (some t, s') =>
    have : s'.size < s.size := by
      have := size_next (show (s.next (answers k)).1 = some t by rw [h])
      rwa [h] at this
    let (ts, last) := drain answers (k + 1) s'
    (t :: ts, last)
  | (none, s') => ([], s')
termination_by s.size

end Scanner

/-- The tokens of a fragment, with every body of plain text read as one. -/
def tokenize (t : Text) : List Token := (Scanner.drain (fun _ => true) 0 { rest := t }).1

end Stencil.Html
