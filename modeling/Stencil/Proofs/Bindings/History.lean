import Mathlib.Data.Nat.Find
import Stencil.CommandLine.Arguments
import Stencil.Proofs.Bindings.Entries
import Stencil.Proofs.Text.Search

/-!
# Histories of bindings

A history lists what was bound, from first to last. It says what bindings should be: their names are
those of the history in the order of first binding, and the value of a name is the one that it was
last bound to (`Holds`). Bindings and history are edited side by side. One edit keeps them in
agreement (`Agree.step`), and so does a run of edits (`Agree.run`).

A value is pushed to the least position that is free, as a new entry. A bare value on the command
line is pushed, so it takes nothing from the bindings before it (`last_bound_in_order`).
-/

namespace Stencil

namespace Bindings

/-- What was bound, from first to last: a name and its value each time. -/
abbrev History := List (Text × Text)

namespace History

/-- The names, in the order of first binding. -/
def names (h : History) : List Text := (h.map Prod.fst).eraseDups

/-- The value that a name was last bound to. -/
def last? (h : History) (name : Text) : Option Text := h.reverse.lookup name

end History

/-- The least number from one on that is not among the names as a position. -/
def leastFree (names : List Text) : Nat := Nat.find (exists_position names)

/-- A change of bindings, which may use and change a state where it computes values. -/
inductive Edit (σ : Type) where
  | insert (name value : Text)
  | push (value : Text)
  | mapValues (f : Text → StateM σ Text)
  | collect (pairs : List (Text × Text))

namespace Edit

variable {σ : Type}

/-- Changes bindings. -/
def apply : Bindings × σ → Edit σ → Bindings × σ
  | (b, s), .insert name value => (b.insert name value, s)
  | (b, s), .push value => (b.push value, s)
  | (b, s), .mapValues f => ((b.mapValuesM f).run s).run
  | (_, s), .collect pairs => (ofList pairs, s)

/-- Writes a change into a history. Mapping values binds every name anew, in order, to what its last
value is mapped to. -/
def record : History × σ → Edit σ → History × σ
  | (h, s), .insert name value => (h ++ [(name, value)], s)
  | (h, s), .push value => (h ++ [(position (leastFree h.names), value)], s)
  | (h, s), .mapValues f =>
    ((h.names.mapM fun name => do return (name, ← f ((h.last? name).getD []))).run s).run
  | (_, s), .collect pairs => (pairs, s)

end Edit

/-- That bindings are what a history says. -/
structure Holds (h : History) (b : Bindings) : Prop where
  names : b.names = h.names
  get? : ∀ name, b.get? name = h.last? name

/-- That bindings are what a history says, and that the states beside them are the same. -/
def Agree {σ : Type} (written : History × σ) (made : Bindings × σ) : Prop :=
  Holds written.1 made.1 ∧ written.2 = made.2

/-! ## Least positions -/

theorem freePosition_eq (b : Bindings) : b.freePosition = leastFree b.names := by
  apply Nat.le_antisymm
  · obtain ⟨hpos, hfree⟩ := Nat.find_spec (exists_position b.names)
    exact freePosition_le hpos hfree
  · exact Nat.find_min' (exists_position b.names) b.freePosition_free

/-! ## One more binding -/

namespace History

theorem mem_names {h : History} {name : Text} : name ∈ h.names ↔ name ∈ h.map Prod.fst :=
  List.mem_eraseDups

theorem names_concat (h : History) (name value : Text) :
    names (h ++ [(name, value)]) = h.names ++ if name ∈ h.names then [] else [name] := by
  rw [names, List.map_append, List.map_singleton, eraseDups_concat]
  simp only [mem_names]
  rfl

theorem last?_concat (h : History) (name value other : Text) :
    last? (h ++ [(name, value)]) other = if other = name then some value else h.last? other := by
  rw [last?, List.reverse_concat, List.lookup_cons]
  by_cases ho : other = name
  · rw [ho, BEq.rfl, if_pos rfl]
  · rw [beq_eq_false_iff_ne.2 ho, if_neg ho]
    rfl

end History

namespace Holds

theorem empty : Holds [] Bindings.empty := by
  constructor
  · rfl
  · intro name
    rfl

theorem insert {h : History} {b : Bindings} (hb : Holds h b) (name value : Text) :
    Holds (h ++ [(name, value)]) (b.insert name value) := by
  constructor
  · rw [names_insert, History.names_concat, hb.names]
  · intro other
    rw [get?_insert, History.last?_concat, hb.get?]

theorem push {h : History} {b : Bindings} (hb : Holds h b) (value : Text) :
    Holds (h ++ [(position (leastFree h.names), value)]) (b.push value) := by
  rw [Bindings.push, freePosition_eq, hb.names]
  exact hb.insert _ value

theorem collect {h : History} {b : Bindings} (hb : Holds h b) (pairs : List (Text × Text)) :
    Holds (h ++ pairs) (pairs.foldl (fun b (name, value) => b.insert name value) b) := by
  induction pairs generalizing h b with
  | nil => rwa [List.append_nil]
  | cons pair pairs ih =>
    obtain ⟨name, value⟩ := pair
    rw [List.append_cons]
    exact ih (hb.insert name value)

theorem entries (b : Bindings) : Holds b.entries b := by
  constructor
  · exact (eraseDups_of_nodup b.distinct).symm
  · intro name
    have hdistinct : (b.entries.reverse.map Prod.fst).Nodup := by
      rw [List.map_reverse]
      exact List.pairwise_reverse.2 (b.distinct.imp Ne.symm)
    cases hget : b.get? name with
    | some value =>
      exact (lookup_of_mem hdistinct (List.mem_reverse.2 (mem_of_get? hget))).symm
    | none =>
      symm
      rw [Bindings.get?, List.lookup_eq_none_iff] at hget
      rw [History.last?, List.lookup_eq_none_iff]
      intro e he
      exact hget e (List.mem_reverse.1 he)

theorem entries_eq {h : History} {b : Bindings} (hb : Holds h b) :
    b.entries = h.names.map fun name => (name, (h.last? name).getD []) := by
  rw [Bindings.entries_eq, hb.names]
  simp only [hb.get?]

end Holds

/-! ## Mapped values -/

section Mapped

variable {m : Type → Type} [Monad m] [LawfulMonad m]

theorem val_mapEntries (f : Text → m Text) (es : List (Text × Text)) :
    Subtype.val <$> mapEntries f es = es.mapM fun e => do return (e.1, ← f e.2) := by
  induction es with
  | nil => simp [mapEntries]
  | cons e es ih =>
    obtain ⟨name, value⟩ := e
    rw [List.mapM_cons, ← ih]
    simp [mapEntries]

theorem entries_mapValuesM (f : Text → m Text) (b : Bindings) :
    Bindings.entries <$> b.mapValuesM f = b.entries.mapM fun e => do return (e.1, ← f e.2) := by
  rw [← val_mapEntries]
  simp [mapValuesM]

end Mapped

/-! ## Edits -/

section Edits

variable {σ : Type}

/-- Mapping values and writing that into the history reach the same state, and what is written is
what the new entries are. -/
theorem Holds.record_mapValues {h : History} {b : Bindings} (hb : Holds h b)
    (f : Text → StateM σ Text) (s : σ) :
    Edit.record (h, s) (.mapValues f) =
      ((Edit.apply (b, s) (.mapValues f)).1.entries, (Edit.apply (b, s) (.mapValues f)).2) := by
  have hmap : (h.names.mapM fun name => do return (name, ← f ((h.last? name).getD []))) =
      Bindings.entries <$> b.mapValuesM f := by
    rw [entries_mapValuesM, hb.entries_eq, List.mapM_map]
    rfl
  rw [Edit.record, hmap]
  rfl

/-- **One edit** of bindings and of their history keeps them in agreement. -/
theorem Agree.step {written : History × σ} {made : Bindings × σ} (h : Agree written made)
    (e : Edit σ) : Agree (Edit.record written e) (Edit.apply made e) := by
  obtain ⟨history, s⟩ := written
  obtain ⟨b, t⟩ := made
  obtain ⟨hb, hstate⟩ := h
  dsimp only at hb hstate
  subst hstate
  cases e with
  | insert name value => exact ⟨hb.insert name value, rfl⟩
  | push value => exact ⟨hb.push value, rfl⟩
  | mapValues f =>
    -- From here on the history is that of the new entries, each bound once.
    rw [hb.record_mapValues]
    exact ⟨.entries _, rfl⟩
  | collect pairs => exact ⟨Holds.empty.collect pairs, rfl⟩

/-- **A run of edits** keeps bindings and history in agreement. -/
theorem Agree.run {written : History × σ} {made : Bindings × σ} (h : Agree written made)
    (edits : List (Edit σ)) :
    Agree (edits.foldl Edit.record written) (edits.foldl Edit.apply made) := by
  induction edits generalizing written made with
  | nil => exact h
  | cons e edits ih => exact ih (h.step e)

end Edits

end Bindings

/-! ## The command line -/

namespace CommandLine

/-- Whether what an `--arg` says is a value without a name. -/
def isBare (binding : Text) : Bool := '=' ∉ binding || binding.head? = some '='

theorem bind_of_isBare (b : Bindings) {binding : Text} (h : isBare binding = true) :
    bind b binding = b.push binding := by
  simp only [isBare, Bool.or_eq_true, decide_eq_true_eq] at h
  rcases h with habsent | hhead
  · rw [bind, Text.cut?_eq_none_of_not_mem (List.mem_singleton_self '=') habsent]
  · obtain ⟨rest, rfl⟩ := List.head?_eq_some_iff.1 hhead
    rfl

theorem bindAll_concat (bindings : List Text) (binding : Text) :
    bindAll (bindings ++ [binding]) = bind (bindAll bindings) binding := by
  rw [bindAll, List.foldl_append]
  rfl

end CommandLine

open Bindings CommandLine in
/-- **Bindings keep what was last bound to each name, in the order of first binding.** -/
theorem Bindings.last_bound_in_order {σ : Type} (edits : List (Edit σ)) (s : σ) :
    let made := edits.foldl Edit.apply (Bindings.empty, s)
    let written := edits.foldl Edit.record ([], s)
    (made.1.names.Nodup ∧ made.2 = written.2 ∧
      (∀ name, made.1.get? name = History.last? written.1 name) ∧
      made.1.entries = (History.names written.1).map fun name =>
        (name, (History.last? written.1 name).getD [])) ∧
    (∀ value, ∃ k, (made.1.push value).entries = made.1.entries ++ [(position k, value)] ∧
      0 < k ∧ position k ∉ made.1.names ∧ ∀ j, 0 < j → position j ∉ made.1.names → k ≤ j) ∧
    ∀ bindings bare, isBare bare = true →
      (bindAll (bindings ++ [bare])).entries =
        (bindAll bindings).entries ++ [(position (bindAll bindings).freePosition, bare)] ∧
      ∀ name value, (bindAll bindings).get? name = some value →
        (bindAll (bindings ++ [bare])).get? name = some value := by
  intro made written
  have hagree : Agree written made := Agree.run ⟨Holds.empty, rfl⟩ edits
  refine ⟨⟨made.1.distinct, hagree.2.symm, hagree.1.get?, hagree.1.entries_eq⟩, ?_, ?_⟩
  · intro value
    obtain ⟨hpos, hfree⟩ := made.1.freePosition_free
    refine ⟨_, made.1.entries_push value, hpos, hfree, ?_⟩
    intro j hj hjfree
    exact freePosition_le hj hjfree
  · intro bindings bare hbare
    have hentries : (bindAll (bindings ++ [bare])).entries =
        (bindAll bindings).entries ++ [(position (bindAll bindings).freePosition, bare)] := by
      rw [bindAll_concat, bind_of_isBare _ hbare, entries_push]
    refine ⟨hentries, ?_⟩
    intro name value hvalue
    rw [get?, hentries, List.lookup_append, ← get?, hvalue, Option.some_or]

namespace Bindings

/-- Edits of each kind: pairs that bind a name twice, pushes around a bound position, and values
that are numbered as they are mapped. -/
def mixedEdits : List (Edit Nat) :=
  [.collect [("2".toList, "a".toList), ("x".toList, "b".toList), ("2".toList, "c".toList)],
    .push "d".toList,
    .mapValues fun value => do
      modify (· + 1)
      return value ++ position (← get),
    .push "e".toList, .insert "x".toList "f".toList]

open CommandLine in
theorem last_bound_in_order_mixedEdits :
    (mixedEdits.foldl Edit.apply (.empty, 0)).1.entries =
      [("2".toList, "c1".toList), ("x".toList, "f".toList), ("1".toList, "d3".toList),
        ("3".toList, "e".toList)] ∧
    isBare "=y".toList = true ∧
    (bindAll ["2=x".toList, "1=z".toList, "=y".toList]).get? ['2'] = some ['x'] :=
  ⟨by decide, by decide,
    ((last_bound_in_order mixedEdits 0).2.2 ["2=x".toList, "1=z".toList] "=y".toList
      (by decide)).2 ['2'] ['x'] (by decide)⟩

end Bindings

end Stencil
