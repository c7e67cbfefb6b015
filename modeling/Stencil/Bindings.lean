import Stencil.Text.Basic

/-!
# Bindings

The arguments of a render: values bound to names, in the order in which the names were first
bound. Binding a name again replaces its value in place. Positional arguments are bound to the
decimal numbers from one on.
-/

namespace Stencil

/-- Values bound to distinct names, in the order of first binding. -/
structure Bindings where
  entries : List (Text × Text) := []
  distinct : (entries.map Prod.fst).Nodup := by simp

namespace Bindings

/-- No bindings. -/
def empty : Bindings := {}

instance : Inhabited Bindings := ⟨empty⟩

/-- The names, in order. -/
def names (b : Bindings) : List Text := b.entries.map Prod.fst

/-- The number of bindings. -/
def size (b : Bindings) : Nat := b.entries.length

/-- The value bound to a name. -/
def get? (b : Bindings) (name : Text) : Option Text := b.entries.lookup name

/-- Binds a name in a list of bindings. -/
def bind (name value : Text) : List (Text × Text) → List (Text × Text)
  | [] => [(name, value)]
  | (n, v) :: es => if n = name then (n, value) :: es else (n, v) :: bind name value es

theorem map_fst_bind (name value : Text) (es : List (Text × Text)) :
    (bind name value es).map Prod.fst =
      if name ∈ es.map Prod.fst then es.map Prod.fst else es.map Prod.fst ++ [name] := by
  induction es with
  | nil => simp [bind]
  | cons e es ih =>
    obtain ⟨n, v⟩ := e
    by_cases h : n = name
    · simp [bind, h]
    · have : ¬name = n := fun he => h he.symm
      simp only [bind, h, if_false, List.map_cons, ih, List.mem_cons, this, false_or]
      split <;> simp

/-- Binds a name to a value. -/
def insert (b : Bindings) (name value : Text) : Bindings where
  entries := bind name value b.entries
  distinct := by
    rw [map_fst_bind]
    split
    · exact b.distinct
    · next h =>
      exact List.nodup_append.2 ⟨b.distinct, by simp, by
        intro x hx y hy hxy
        rw [List.mem_singleton] at hy
        exact h (hy ▸ hxy ▸ hx)⟩

/-- The bindings made by a list of pairs, from left to right. -/
def ofList (pairs : List (Text × Text)) : Bindings :=
  pairs.foldl (fun b (name, value) => b.insert name value) empty

/-- A number as it names a positional argument. -/
def position (n : Nat) : Text := Nat.toDigits 10 n

/-- The values bound to `1`, `2`, and so on. -/
def positional (values : List Text) : Bindings :=
  ofList (values.zipIdx.map fun (v, i) => (position (i + 1), v))

/-- The least number from one on that names no binding. -/
def freePosition (b : Bindings) : Nat :=
  (((List.range (b.size + 1)).map (· + 1)).find? fun n => position n ∉ b.names).getD 0

/-- Binds a value to the least free position. -/
def push (b : Bindings) (value : Text) : Bindings := b.insert (position b.freePosition) value

/-- A list of bindings with an action run on every value, in order. -/
def mapEntries {m : Type → Type} [Monad m] (f : Text → m Text) :
    (es : List (Text × Text)) → m { fs : List (Text × Text) // fs.map Prod.fst = es.map Prod.fst }
  | [] => pure ⟨[], rfl⟩
  | (n, v) :: es => do
    let w ← f v
    let ⟨fs, h⟩ ← mapEntries f es
    return ⟨(n, w) :: fs, by simp [h]⟩

/-- The bindings with an action run on every value, in order. -/
def mapValuesM {m : Type → Type} [Monad m] (f : Text → m Text) (b : Bindings) : m Bindings := do
  let ⟨es, h⟩ ← mapEntries f b.entries
  return { entries := es, distinct := h ▸ b.distinct }

/-- The bindings with a function applied to every value. -/
def mapValues (f : Text → Text) (b : Bindings) : Bindings :=
  Id.run (b.mapValuesM fun value => pure (f value))

end Bindings

end Stencil
