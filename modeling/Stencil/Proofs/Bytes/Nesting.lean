import Stencil.Proofs.Bytes.Loops
import Stencil.Proofs.Bytes.Template
import Stencil.Proofs.Template.Nesting

/-!
# Nesting by bytes

The two loops that read a template, one turn after another: over the bytes of the text, and then
over the placeholders that are still open. `Moves` says once what a turn can do, so reading ends,
after at most one turn for each byte and two more (`ends_templateTurn`), and what it has read at any
turn is nested no deeper than allowed (`bounded_of_reached`).
-/

namespace Stencil.Bytes

open Text (bytes byteLength)
open Template

/-- Where the reading of a template is. -/
inductive Reading where
  /-- At position `i`, where the text from `start` on is not added yet. -/
  | text (i start : Nat) (r : Reader)
  /-- After the text, with the placeholders that are still open. -/
  | rest (r : Reader)

def Reading.reader : Reading → Reader
  | .text _ _ r | .rest r => r

/-- Goes on at a position with nothing to add. -/
def resume (r? : Option Reader) (i : Nat) : Turn Reading Template :=
  match r? with
  | none => .fail
  | some r => .again (.text i i r)

/-- Reading a byte, or a sign and the text before it; then taking the placeholders that are still
open as text, the innermost first. -/
def templateTurn (t : Text) : Reading → Turn Reading Template
  | .text i start r =>
    match (bytes t)[i]? with
    | none =>
      match from? t start with
      | none => .fail
      | some u => .again (.rest { r with run := u.reverse }.flush)
    | some b =>
      if is (· = '\x7b') b then
        match startsAt? opening t i with
        | none => .fail
        | some starts =>
          if starts && r.stack.length < maxNesting then
            let e := skipWhile (· = '\x7b') (bytes t) i
            if i + 3 ≤ e then resume (markAfter? t start (e - 3) .opening r) e else .fail
          else .again (.text (i + 1) start r)
      else if is (· = '|') b && r.stack ≠ [] then
        resume (markAfter? t start i .bar r) (i + 1)
      else if is (· = '\x7d') b && r.stack ≠ [] then
        match startsAt? closing t i with
        | none => .fail
        | some true => resume (markAfter? t start i .closing r) (i + 3)
        | some false => .again (.text (i + 1) start r)
      else .again (.text (i + 1) start r)
  | .rest r =>
    match r.stack with
    | [] => .done r.root
    | s :: outer => .again (.rest ({ r with stack := outer }.add s.literal))

/-- The states that a loop comes to. -/
inductive Reached {σ ρ : Type} (turn : σ → Turn σ ρ) (start : σ) : σ → Prop where
  | start : Reached turn start start
  | again {s s' : σ} (h : Reached turn start s) (hturn : turn s = .again s') :
      Reached turn start s'

/-- What a turn that goes on can do. -/
inductive Moves (t : Text) : Reading → Reading → Prop where
  | passed {i start : Nat} {r : Reader} (hi : i < (bytes t).length) :
      Moves t (.text i start r) (.text (i + 1) start r)
  | marked {i start j : Nat} {r : Reader} (u : Text) {mark : Mark} (hi : i < (bytes t).length)
      (hj : i < j) (hopening : mark = .opening → i + 3 ≤ j ∧ j ≤ (bytes t).length) :
      Moves t (.text i start r) (.text j j ({ r with run := u }.step mark))
  | ended {i start : Nat} {r : Reader} (u : Text) :
      Moves t (.text i start r) (.rest { r with run := u }.flush)
  | unwound {r : Reader} {s : OpenSlot} {outer : List OpenSlot} (h : r.stack = s :: outer) :
      Moves t (.rest r) (.rest ({ r with stack := outer }.add s.literal))

/-- What is read from a state on. -/
def readFrom? (t : Text) : Reading → Option Template
  | .text i start r => templateFrom? t i start r
  | .rest r => some (Reader.collapse r.root r.stack)

/-- A bound on the turns that are left. -/
def turnsLeft (t : Text) : Reading → Nat
  | .text i _ r => (bytes t).length - i + r.stack.length + 1
  | .rest r => r.stack.length

/-- What a turn can do, with what is read from its state on. -/
inductive TemplateOutcome (t : Text) (p : Reading) : Turn Reading Template → Prop where
  | fail (hread : readFrom? t p = none) : TemplateOutcome t p .fail
  | again {p' : Reading} (hmoves : Moves t p p') (hread : readFrom? t p = readFrom? t p') :
      TemplateOutcome t p (.again p')
  | done {r : Template} (hread : readFrom? t p = some r) : TemplateOutcome t p (.done r)

variable {t : Text} {p p' : Reading}

theorem outcome_resume {i start j k : Nat} {r : Reader} {mark : Mark} (hi : i < (bytes t).length)
    (hj : i < j) (hopening : mark = .opening → i + 3 ≤ j ∧ j ≤ (bytes t).length)
    (hread : readFrom? t (.text i start r) =
      (markAfter? t start k mark r).bind (templateFrom? t j j)) :
    TemplateOutcome t (.text i start r) (resume (markAfter? t start k mark r) j) := by
  cases hmark : markAfter? t start k mark r with
  | none =>
    rw [hmark] at hread
    exact .fail hread
  | some r' =>
    rw [hmark] at hread
    obtain ⟨u, -, rfl⟩ := Option.map_eq_some_iff.1 hmark
    exact .again (.marked u.reverse hi hj hopening) hread

/-- **A turn does one of the moves** and keeps what is read. -/
theorem outcome_templateTurn (t : Text) (p : Reading) :
    TemplateOutcome t p (templateTurn t p) := by
  cases p with
  | rest r =>
    have hread : readFrom? t (.rest r) = some (Reader.collapse r.root r.stack) := rfl
    rw [templateTurn]
    cases hstack : r.stack with
    | nil =>
      rw [hstack, Reader.collapse] at hread
      exact .done hread
    | cons s outer =>
      rw [hstack, Reader.collapse_cons] at hread
      exact .again (.unwound hstack) hread
  | text i start r =>
    -- What is read from here on is opened beside the turn, branch by branch.
    have hread : readFrom? t (.text i start r) = templateFrom? t i start r := rfl
    rw [templateFrom?] at hread
    rw [templateTurn]
    cases hget : (bytes t)[i]? with
    | none =>
      rw [if_neg (Nat.not_lt.2 (List.getElem?_eq_none_iff.1 hget))] at hread
      cases hrest : from? t start with
      | none =>
        rw [hrest] at hread
        exact .fail hread
      | some u =>
        rw [hrest] at hread
        exact .again (.ended u.reverse) hread
    | some b =>
      have hi := (List.getElem?_eq_some_iff.1 hget).1
      have hpassed (h : readFrom? t (.text i start r) = templateFrom? t (i + 1) start r) :
          TemplateOutcome t (.text i start r) (.again (.text (i + 1) start r)) :=
        .again (.passed hi) h
      rw [if_pos hi, hget] at hread
      dsimp only at hread ⊢
      by_cases hopening : is (· = '\x7b') b = true
      · rw [if_pos hopening] at hread ⊢
        cases hstarts : startsAt? opening t i with
        | none =>
          rw [hstarts] at hread
          exact .fail hread
        | some starts =>
          rw [hstarts] at hread
          dsimp only at hread ⊢
          by_cases hroom : (starts && decide (r.stack.length < maxNesting)) = true
          · rw [if_pos hroom] at hread ⊢
            by_cases hlong : i + 3 ≤ skipWhile (· = '\x7b') (bytes t) i
            · rw [if_pos hlong] at hread ⊢
              have hend := skipWhile_le (· = '\x7b') (Nat.le_of_lt hi)
              exact outcome_resume hi (by omega) (fun _ => ⟨hlong, hend⟩) hread
            · rw [if_neg hlong] at hread ⊢
              exact .fail hread
          · rw [if_neg hroom] at hread ⊢
            exact hpassed hread
      · rw [if_neg hopening] at hread ⊢
        by_cases hbar : (is (· = '|') b && decide (r.stack ≠ [])) = true
        · rw [if_pos hbar] at hread ⊢
          exact outcome_resume hi (Nat.lt_succ_self i) Mark.noConfusion hread
        · rw [if_neg hbar] at hread ⊢
          by_cases hclosing : (is (· = '\x7d') b && decide (r.stack ≠ [])) = true
          · rw [if_pos hclosing] at hread ⊢
            cases hstarts : startsAt? closing t i with
            | none =>
              rw [hstarts] at hread
              exact .fail hread
            | some starts =>
              rw [hstarts] at hread
              cases starts with
              | true => exact outcome_resume hi (by omega) Mark.noConfusion hread
              | false => exact hpassed hread
          · rw [if_neg hclosing] at hread ⊢
            exact hpassed hread

theorem turnsLeft_lt (h : Moves t p p') : turnsLeft t p' < turnsLeft t p := by
  cases h with
  | passed hi =>
    simp only [turnsLeft]
    omega
  | @marked i start j r u mark hi hj hopening =>
    have hstack : ({ r with run := u }.step mark).stack.length ≤
        r.stack.length + if mark = .opening then 1 else 0 := Reader.length_stack_step_le _ mark
    simp only [turnsLeft]
    split at hstack
    · next hmark =>
      obtain ⟨hlong, hinside⟩ := hopening hmark
      omega
    · omega
  | ended =>
    simp only [turnsLeft, Reader.length_stack_flush]
    omega
  | unwound hstack =>
    simp only [turnsLeft, Reader.length_stack_add, hstack, List.length_cons]
    omega

/-- **Reading a template ends**, with the template that is parsed by characters. -/
theorem ends_templateTurn (t : Text) :
    Ends (templateTurn t) (byteLength t + 2) (.text 0 0 {}) (parse t) := by
  have hread : readFrom? t (.text 0 0 {}) = some (parse t) := parseTemplate?_eq t
  refine Ends.of_reads (readFrom? t) (turnsLeft t) (fun p r hr => ?_) hread ?_
  · have houtcome := outcome_templateTurn t p
    generalize templateTurn t p = turn at houtcome ⊢
    cases houtcome with
    | fail hread => exact absurd (hread.symm.trans hr) (Option.some_ne_none r).symm
    | again hmoves hread => exact .inr ⟨_, rfl, turnsLeft_lt hmoves, hread.symm.trans hr⟩
    | done hread => exact .inl (congrArg _ (Option.some.inj (hread.symm.trans hr)))
  · rw [turnsLeft, length_bytes]
    exact Nat.le_refl _

theorem bounded_of_moves (h : p.reader.Bounded) (hmoves : Moves t p p') : p'.reader.Bounded := by
  cases hmoves with
  | passed => exact h
  | @marked _ _ _ r u mark =>
    have hread : Reader.Bounded { r with run := u } := ⟨h.root, h.stack⟩
    exact hread.step mark
  | @ended _ _ r u =>
    have hread : Reader.Bounded { r with run := u } := ⟨h.root, h.stack⟩
    exact hread.flush
  | unwound hstack => exact h.unwind hstack

/-- **All that is read is nested no deeper than allowed**, at every turn. -/
theorem bounded_of_reached (h : Reached (templateTurn t) (.text 0 0 {}) p) : p.reader.Bounded := by
  induction h with
  | start => exact ⟨Nat.zero_le _, trivial⟩
  | @again p p' _ hturn ih =>
    have houtcome := outcome_templateTurn t p
    rw [hturn] at houtcome
    cases houtcome with
    | again hmoves => exact bounded_of_moves ih hmoves

/-- **Nesting is bounded.** Reading a template ends with what is parsed, and no more than 40
placeholders are open at any turn of it. In what is parsed placeholders are nested at most 40 deep,
so a recursion that goes at most 41 levels deep fills it in, whatever the names are bound to. -/
theorem nesting_bounded (t : Text) (b : Bindings) :
    Ends (templateTurn t) (byteLength t + 2) (.text 0 0 {}) (parse t) ∧
      (∀ p, Reached (templateTurn t) (.text 0 0 {}) p → p.reader.stack.length ≤ 40) ∧
        (parse t).depth ≤ 40 ∧ expandWithin? b 41 (parse t) = some ((parse t).expand b) :=
  ⟨ends_templateTurn t, fun _ h => (bounded_of_reached h).stack.length_le, depth_parse_le t,
    expandWithin?_eq b (depth_parse_le t)⟩

/-- Computed names, nested as deep as can be: a recursion that goes one level less deep fails. -/
example :
    let deep := (List.replicate 40 (opening ++ ['a'])).flatten ++
      (List.replicate 40 closing).flatten
    (parse deep).depth = 40 ∧ expandWithin? .empty 40 (parse deep) = none := by
  decide +kernel

end Stencil.Bytes
