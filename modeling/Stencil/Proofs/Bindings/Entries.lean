import Stencil.Bindings

/-!
# Entries

What every change of bindings does to their entries: to the value of each name (`get?_insert`), and
to the order of the names (`names_insert`). Distinct numbers name distinct positions, so one of the
first positions is free whatever is bound, and the position that a value is pushed to is the least
one (`freePosition_free`, `freePosition_le`). No entry is changed by that (`entries_push`).
-/

namespace Stencil

theorem eraseDups_concat {α : Type} [BEq α] [LawfulBEq α] (done : List α) (a : α) :
    (done ++ [a]).eraseDups = done.eraseDups ++ if a ∈ done then [] else [a] := by
  rw [List.eraseDups_append]
  by_cases h : a ∈ done
  · simp [List.removeAll, h]
  · simp [List.removeAll, List.eraseDups_cons, h]

theorem eraseDups_of_nodup {α : Type} [BEq α] [LawfulBEq α] {as : List α} (h : as.Nodup) :
    as.eraseDups = as := by
  induction as with
  | nil => rfl
  | cons a as ih =>
    obtain ⟨ha, has⟩ := List.nodup_cons.1 h
    have hfilter : as.filter (fun b => !b == a) = as := by
      rw [List.filter_eq_self]
      intro b hb
      have hne : b ≠ a := by
        rintro rfl
        exact ha hb
      simpa using hne
    rw [List.eraseDups_cons, hfilter, ih has]

namespace Bindings

/-! ## Values and names -/

theorem lookup_bind (name value other : Text) (es : List (Text × Text)) :
    (bind name value es).lookup other = if other = name then some value else es.lookup other := by
  induction es with
  | nil => simp [bind]
  | cons e es ih =>
    obtain ⟨n, v⟩ := e
    by_cases hn : n = name
    · subst hn
      rw [bind, if_pos rfl, List.lookup_cons, List.lookup_cons]
      by_cases ho : other = n
      · simp [ho]
      · rw [beq_eq_false_iff_ne.2 ho, if_neg ho]
    · rw [bind, if_neg hn, List.lookup_cons, List.lookup_cons, ih]
      by_cases ho : other = n
      · simp [ho, hn]
      · rw [beq_eq_false_iff_ne.2 ho]

theorem get?_insert (b : Bindings) (name value other : Text) :
    (b.insert name value).get? other = if other = name then some value else b.get? other :=
  lookup_bind name value other b.entries

theorem names_insert (b : Bindings) (name value : Text) :
    (b.insert name value).names = b.names ++ if name ∈ b.names then [] else [name] := by
  have hnames := map_fst_bind name value b.entries
  split
  · next h =>
    rw [List.append_nil]
    exact hnames.trans (if_pos h)
  · next h => exact hnames.trans (if_neg h)

theorem mem_of_get? {b : Bindings} {name v : Text} (h : b.get? name = some v) :
    (name, v) ∈ b.entries := by
  obtain ⟨before, after, hentries, -⟩ := List.lookup_eq_some_iff.1 h
  simp [hentries]

theorem lookup_of_mem {es : List (Text × Text)} (hes : (es.map Prod.fst).Nodup) {name value : Text}
    (h : (name, value) ∈ es) : es.lookup name = some value := by
  obtain ⟨before, after, rfl⟩ := List.append_of_mem h
  rw [List.lookup_eq_some_iff]
  refine ⟨before, after, rfl, ?_⟩
  intro e he
  rw [List.map_append, List.nodup_append] at hes
  have hne : e.1 ≠ name := hes.2.2 e.1 (List.mem_map_of_mem he) name (by simp)
  simpa using hne.symm

theorem entries_eq (b : Bindings) :
    b.entries = b.names.map fun name => (name, (b.get? name).getD []) := by
  have hentry : ∀ e ∈ b.entries, (e.1, (b.get? e.1).getD []) = e := by
    intro e he
    rw [get?, lookup_of_mem b.distinct he, Option.getD_some]
  rw [names, List.map_map]
  exact (List.map_id b.entries).symm.trans (List.map_congr_left fun e he => (hentry e he).symm)

/-! ## Positions -/

theorem position_inj {m n : Nat} : position m = position n ↔ m = n := by
  refine ⟨fun h => ?_, fun h => h ▸ rfl⟩
  have hdigits := congrArg (Nat.ofDigitChars 10 · 0) h
  simpa [position, Nat.ofDigitChars_ten_toDigits] using hdigits

theorem exists_free (names : List Text) :
    ∃ k < names.length + 1, position (k + 1) ∉ names := by
  apply Classical.byContradiction
  intro hnone
  -- Otherwise these positions, which are distinct, would all be among the names, which are fewer.
  let positions := (List.range (names.length + 1)).map fun k => position (k + 1)
  have hnodup : positions.Nodup := by
    apply List.pairwise_map.2
    apply List.nodup_range.imp
    intro j k hne h
    have := position_inj.1 h
    omega
  have hsubset : positions ⊆ names := by
    intro p hp
    obtain ⟨k, hk, rfl⟩ := List.mem_map.1 hp
    apply Classical.byContradiction
    intro hfree
    exact hnone ⟨k, List.mem_range.1 hk, hfree⟩
  have hlength := hnodup.length_le_of_subset hsubset
  rw [List.length_map, List.length_range] at hlength
  omega

theorem exists_position (names : List Text) : ∃ k, 0 < k ∧ position k ∉ names := by
  obtain ⟨k, -, hk⟩ := exists_free names
  exact ⟨k + 1, Nat.succ_pos k, hk⟩

theorem freePosition_spec (b : Bindings) :
    ∃ k, b.freePosition = k + 1 ∧ position (k + 1) ∉ b.names ∧
      ∀ j < k, position (j + 1) ∈ b.names := by
  obtain ⟨free, hlt, hfree⟩ := exists_free b.names
  have hsize : b.names.length = b.size := List.length_map _
  cases hfind : (List.range (b.size + 1)).find? fun k => position (k + 1) ∉ b.names with
  | none =>
    rw [List.find?_eq_none] at hfind
    have := hfind free (List.mem_range.2 (hsize ▸ hlt))
    simp [hfree] at this
  | some k =>
    have hspec := List.find?_range_eq_some.1 hfind
    refine ⟨k, ?_, by simpa using hspec.1, ?_⟩
    · rw [freePosition, List.find?_map]
      simp only [Function.comp_def]
      rw [hfind]
      rfl
    · intro j hj
      simpa using hspec.2.2 j hj

theorem freePosition_free (b : Bindings) :
    0 < b.freePosition ∧ position b.freePosition ∉ b.names := by
  obtain ⟨k, hk, hfree, -⟩ := b.freePosition_spec
  rw [hk]
  exact ⟨Nat.succ_pos k, hfree⟩

theorem freePosition_le {b : Bindings} {n : Nat} (hpos : 0 < n) (hfree : position n ∉ b.names) :
    b.freePosition ≤ n := by
  obtain ⟨k, hk, -, hbound⟩ := b.freePosition_spec
  rw [hk]
  apply Nat.le_of_not_lt
  intro hlt
  have hmem := hbound (n - 1) (by omega)
  rw [Nat.sub_add_cancel hpos] at hmem
  exact hfree hmem

theorem bind_of_not_mem {name : Text} {es : List (Text × Text)} (h : name ∉ es.map Prod.fst)
    (value : Text) : bind name value es = es ++ [(name, value)] := by
  induction es with
  | nil => rfl
  | cons e es ih =>
    rw [List.map_cons, List.mem_cons, not_or] at h
    rw [bind, if_neg (Ne.symm h.1), ih h.2, List.cons_append]

/-- **A value that is pushed is a new entry**, and no other changes. -/
theorem entries_push (b : Bindings) (value : Text) :
    (b.push value).entries = b.entries ++ [(position b.freePosition, value)] :=
  bind_of_not_mem b.freePosition_free.2 value

end Bindings

end Stencil
