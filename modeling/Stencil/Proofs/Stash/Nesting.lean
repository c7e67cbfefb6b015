import Mathlib.Data.List.Basic
import Stencil.CommandLine.Run
import Stencil.Proofs.Stash.Markers

/-!
# Nested pieces

What is stored by one call may hold markers that earlier calls gave, so the stored pieces form a
graph without cycles, and a text over them is meant as what comes out when every marker is replaced,
however deep (`contents`). One pass replaces the outermost markers (`resolveOnce_write`): the text
still means the same, and is nested one level less. So as many passes as a text is nested deep write
out what it means (`resolveWithin_write`), and sixteen of them are made.
-/

namespace Stencil.Stash

/-- A part of what is stored: plain text, or the marker that an earlier call gave. -/
inductive Piece where
  | text (t : Text)
  | item (call : Nat)
  deriving DecidableEq, Repr

namespace Piece

/-- Whether a piece can stand in a text after a number of calls. -/
def Valid (count : Nat) : Piece → Prop
  | .text t => delimiter ∉ t
  | .item call => call < count

instance (count : Nat) : DecidablePred (Valid count)
  | .text t => inferInstanceAs (Decidable (delimiter ∉ t))
  | .item call => inferInstanceAs (Decidable (call < count))

/-- What stands for a piece, where a table says what stands for each call. -/
def value {α : Type} [Inhabited α] (plain : Text → α) (table : List α) : Piece → α
  | .text t => plain t
  | .item call => table.getD call default

end Piece

/-- Calls that store pieces, from first to last: each may use the markers of those before it. -/
inductive Ordered : List (List Piece) → Prop where
  | nil : Ordered []
  | concat {calls : List (List Piece)} {content : List Piece} :
    Ordered calls → (∀ p ∈ content, p.Valid calls.length) → Ordered (calls ++ [content])

/-- Pieces written one after another. -/
def write (table : List Text) (pieces : List Piece) : Text := pieces.flatMap (·.value id table)

/-- The pieces with each call replaced by what it stored. -/
def outermost (calls : List (List Piece)) (pieces : List Piece) : List Piece :=
  pieces.flatMap (·.value (fun t => [.text t]) calls)

/-- How deep the deepest piece is, where a table says how deep each call is. -/
def nesting (table : List Nat) (pieces : List Piece) : Nat :=
  (pieces.map (·.value (fun _ => 0) table)).foldr max 0

/-- An entry for each call, made from the entries of the calls before it. -/
def tabulate {α : Type} (f : List α → List Piece → α) (calls : List (List Piece)) : List α :=
  calls.foldl (fun table content => table ++ [f table content]) []

/-- What each call stored, with every marker in it replaced, however deep. -/
def contents (calls : List (List Piece)) : List Text := tabulate write calls

/-- How deep each call is: one level if what it stored holds no markers. -/
def depths (calls : List (List Piece)) : List Nat :=
  tabulate (fun table content => nesting table content + 1) calls

/-- Makes the calls, and gives their markers. -/
def insertAll (s : Stash) (calls : List (List Piece)) : Stash × List Text :=
  calls.foldl (fun (s, markers) content =>
    let (s', marker) := s.insert (write markers content)
    (s', markers ++ [marker])) (s, [])

/-- The markers of pieces that are stored next. -/
def markers (s : Stash) (count : Nat) : List Text :=
  (List.range count).map fun call => marker (s.items.length + call)

/-- The stash with what the calls store. -/
def stored (s : Stash) (calls : List (List Piece)) : Stash where
  items := s.items ++ calls.map (write (s.markers calls.length))

/-! ## Tables -/

section

variable {α : Type}

theorem Piece.Valid.mono {m n : Nat} (h : m ≤ n) {p : Piece} (hp : p.Valid m) : p.Valid n := by
  cases p with
  | text t => exact hp
  | item call => exact Nat.lt_of_lt_of_le hp h

theorem Piece.value_append [Inhabited α] {p : Piece} {table : List α} (hp : p.Valid table.length)
    (plain : Text → α) (more : List α) : p.value plain (table ++ more) = p.value plain table := by
  cases p with
  | text t => rfl
  | item call =>
    rw [value, value, List.getD_eq_getElem?_getD, List.getElem?_append_left hp,
      ← List.getD_eq_getElem?_getD]

theorem Piece.value_item [Inhabited α] {table : List α} {call : Nat} (hcall : call < table.length)
    (plain : Text → α) : (Piece.item call).value plain table = table[call] := by
  rw [value, List.getD_eq_getElem?_getD, List.getElem?_eq_getElem hcall, Option.getD_some]

/-- In a table made from what each call stored, the entry of a call is made from what it stored. -/
theorem Piece.value_item_of_eq_map [Inhabited α] {table : List α} {calls : List (List Piece)}
    {g : List Piece → α} (htable : table = calls.map g) {call : Nat} (hcall : call < calls.length)
    (plain : Text → α) :
    (Piece.item call).value plain table =
      g ((Piece.item call).value (fun t => [.text t]) calls) := by
  subst htable
  rw [value_item hcall, value_item (by rwa [List.length_map]), List.getElem_map]

theorem write_cons (table : List Text) (p : Piece) (ps : List Piece) :
    write table (p :: ps) = p.value id table ++ write table ps := List.flatMap_cons

theorem write_append (table : List Text) (ps qs : List Piece) :
    write table (ps ++ qs) = write table ps ++ write table qs := List.flatMap_append

theorem outermost_cons (calls : List (List Piece)) (p : Piece) (ps : List Piece) :
    outermost calls (p :: ps) = p.value (fun t => [.text t]) calls ++ outermost calls ps :=
  List.flatMap_cons

theorem write_table_append {table : List Text} {pieces : List Piece}
    (h : ∀ p ∈ pieces, p.Valid table.length) (more : List Text) :
    write (table ++ more) pieces = write table pieces :=
  List.flatMap_congr fun p hp => Piece.value_append (h p hp) id more

theorem nesting_table_append {table : List Nat} {pieces : List Piece}
    (h : ∀ p ∈ pieces, p.Valid table.length) (more : List Nat) :
    nesting (table ++ more) pieces = nesting table pieces := by
  rw [nesting, nesting, List.map_congr_left fun p hp => Piece.value_append (h p hp) _ more]

theorem nesting_le_iff {table : List Nat} {pieces : List Piece} {n : Nat} :
    nesting table pieces ≤ n ↔ ∀ p ∈ pieces, p.value (fun _ => 0) table ≤ n := by
  rw [nesting]
  induction pieces with
  | nil => simp
  | cons p ps ih => rw [List.map_cons, List.foldr_cons, Nat.max_le, ih, List.forall_mem_cons]

theorem Ordered.valid {calls : List (List Piece)} (h : Ordered calls) :
    ∀ content ∈ calls, ∀ p ∈ content, p.Valid calls.length := by
  induction h with
  | nil => simp
  | @concat calls content hcalls hcontent ih =>
    have hle : calls.length ≤ (calls ++ [content]).length := by simp
    intro stored hstored p hp
    rw [List.mem_append, List.mem_singleton] at hstored
    rcases hstored with hstored | rfl
    · exact (ih stored hstored p hp).mono hle
    · exact (hcontent p hp).mono hle

variable {f : List α → List Piece → α}

theorem tabulate_concat (f : List α → List Piece → α) (calls : List (List Piece))
    (content : List Piece) :
    tabulate f (calls ++ [content]) = tabulate f calls ++ [f (tabulate f calls) content] := by
  rw [tabulate, List.foldl_append]
  rfl

theorem length_tabulate (f : List α → List Piece → α) {calls : List (List Piece)}
    (h : Ordered calls) : (tabulate f calls).length = calls.length := by
  induction h with
  | nil => rfl
  | concat _ _ ih => rw [tabulate_concat, List.length_append, List.length_append, ih]; rfl

/-- If an entry depends on earlier calls only, each is made from the whole table in the same way. -/
theorem tabulate_eq_map
    (hf : ∀ table content, (∀ p ∈ content, Piece.Valid table.length p) → ∀ more,
      f (table ++ more) content = f table content)
    {calls : List (List Piece)} (h : Ordered calls) :
    tabulate f calls = calls.map (f (tabulate f calls)) := by
  induction h with
  | nil => rfl
  | @concat calls content hcalls hcontent ih =>
    have hlength := length_tabulate f hcalls
    have hearlier : calls.map (f (tabulate f calls ++ [f (tabulate f calls) content])) =
        calls.map (f (tabulate f calls)) := by
      apply List.map_congr_left
      intro stored hstored
      exact hf _ _ (hlength ▸ hcalls.valid stored hstored) _
    rw [tabulate_concat, List.map_append, hearlier, ← ih, List.map_singleton,
      hf _ _ (hlength ▸ hcontent)]

end

section

variable {calls : List (List Piece)} (hcalls : Ordered calls)

include hcalls

theorem contents_eq_map : contents calls = calls.map (write (contents calls)) :=
  tabulate_eq_map (fun _ _ => write_table_append) hcalls

theorem depths_eq_map :
    depths calls = calls.map fun content => nesting (depths calls) content + 1 :=
  tabulate_eq_map (fun _ _ h more => congrArg (· + 1) (nesting_table_append h more)) hcalls

/-- What a call stored can stand where its marker stood. -/
theorem valid_outermost {pieces : List Piece} (h : ∀ p ∈ pieces, p.Valid calls.length) :
    ∀ p ∈ outermost calls pieces, p.Valid calls.length := by
  intro p hp
  obtain ⟨q, hq, hpq⟩ := List.mem_flatMap.1 hp
  cases q with
  | text t =>
    rw [List.mem_singleton.1 hpq]
    exact h _ hq
  | item call =>
    have hcall : call < calls.length := h _ hq
    rw [Piece.value_item hcall] at hpq
    exact hcalls.valid _ (List.getElem_mem hcall) p hpq

/-- Replacing the outermost markers does not change what a text means. -/
theorem write_contents_outermost {pieces : List Piece} (h : ∀ p ∈ pieces, p.Valid calls.length) :
    write (contents calls) (outermost calls pieces) = write (contents calls) pieces := by
  rw [outermost, write, List.flatMap_assoc]
  apply List.flatMap_congr
  intro p hp
  cases p with
  | text t => exact List.append_nil t
  | item call => exact (Piece.value_item_of_eq_map (contents_eq_map hcalls) (h _ hp) id).symm

/-- With the outermost markers replaced, one level of nesting is gone. -/
theorem nesting_outermost {pieces : List Piece} (h : ∀ p ∈ pieces, p.Valid calls.length) {n : Nat}
    (hnesting : nesting (depths calls) pieces ≤ n + 1) :
    nesting (depths calls) (outermost calls pieces) ≤ n := by
  rw [nesting_le_iff] at hnesting ⊢
  intro p hp
  obtain ⟨q, hq, hpq⟩ := List.mem_flatMap.1 hp
  cases q with
  | text t =>
    rw [List.mem_singleton.1 hpq]
    exact Nat.zero_le n
  | item call =>
    have hdepth := Piece.value_item_of_eq_map (depths_eq_map hcalls) (h _ hq) (fun _ => 0)
    have hle := hnesting _ hq
    rw [hdepth] at hle
    exact nesting_le_iff.1 (Nat.le_of_succ_le_succ hle) p hpq

/-- A text without nesting holds no markers: it is what it means. -/
theorem write_of_nesting_zero {pieces : List Piece} (h : ∀ p ∈ pieces, p.Valid calls.length)
    (hnesting : nesting (depths calls) pieces ≤ 0) (table : List Text) :
    write table pieces = write (contents calls) pieces ∧
      delimiter ∉ write (contents calls) pieces := by
  have htext : ∀ p ∈ pieces, ∃ t, p = .text t ∧ delimiter ∉ t := by
    intro p hp
    cases p with
    | text t => exact ⟨t, rfl, h _ hp⟩
    | item call =>
      have hdepth := Piece.value_item_of_eq_map (depths_eq_map hcalls) (h _ hp) (fun _ => 0)
      have hle := nesting_le_iff.1 hnesting _ hp
      omega
  constructor
  · apply List.flatMap_congr
    intro p hp
    obtain ⟨t, rfl, -⟩ := htext p hp
    rfl
  · intro hmem
    obtain ⟨p, hp, hvalue⟩ := List.mem_flatMap.1 hmem
    obtain ⟨t, rfl, ht⟩ := htext p hp
    exact ht hvalue

end

/-! ## Stored pieces -/

section

variable (s : Stash)

theorem length_markers (count : Nat) : (s.markers count).length = count := by
  simp [markers]

theorem markers_succ (count : Nat) :
    s.markers (count + 1) = s.markers count ++ [marker (s.items.length + count)] := by
  simp [markers, List.range_succ]

theorem insertAll_concat (calls : List (List Piece)) (content : List Piece) :
    s.insertAll (calls ++ [content]) =
      (⟨(s.insertAll calls).1.items ++ [write (s.insertAll calls).2 content]⟩,
        (s.insertAll calls).2 ++ [marker (s.insertAll calls).1.items.length]) := by
  rw [insertAll, List.foldl_append]
  rfl

variable {calls : List (List Piece)}

/-- The marker of a call is replaced by what it stored. -/
theorem resolveOnce_item_append {call : Nat} (hcall : call < calls.length) (rest : Text) :
    (s.stored calls).resolveOnce ((Piece.item call).value id (s.markers calls.length) ++ rest) =
      write (s.markers calls.length) calls[call] ++ (s.stored calls).resolveOnce rest := by
  have hitem : (s.stored calls).items[s.items.length + call]? =
      some (write (s.markers calls.length) calls[call]) := by
    simp [stored, hcall]
  have hmarker : (Piece.item call).value id (s.markers calls.length) =
      marker (s.items.length + call) := by
    simp [markers, Piece.value, hcall]
  rw [hmarker, resolveOnce_marker_append hitem]

/-- **A pass replaces the outermost markers.** -/
theorem resolveOnce_write {pieces : List Piece} (h : ∀ p ∈ pieces, p.Valid calls.length) :
    (s.stored calls).resolveOnce (write (s.markers calls.length) pieces) =
      write (s.markers calls.length) (outermost calls pieces) := by
  induction pieces with
  | nil => exact resolveOnce_of_cut?_none _ rfl
  | cons p ps ih =>
    obtain ⟨hp, hps⟩ := List.forall_mem_cons.1 h
    rw [write_cons, outermost_cons, write_append]
    cases p with
    | text t =>
      have ht : write (s.markers calls.length) [.text t] = t := List.append_nil t
      change (s.stored calls).resolveOnce (t ++ _) = write _ [.text t] ++ _
      rw [ht, resolveOnce_text_append _ hp, ih hps]
    | item call => rw [s.resolveOnce_item_append hp, ih hps, Piece.value_item hp]

variable (hcalls : Ordered calls)

include hcalls

/-- **The calls store their pieces one after another**, and give markers that are numbered on. -/
theorem insertAll_eq : s.insertAll calls = (s.stored calls, s.markers calls.length) := by
  induction hcalls with
  | nil => simp [insertAll, stored, markers]
  | @concat calls content hcalls hcontent ih =>
    have hlength : (s.stored calls).items.length = s.items.length + calls.length := by
      simp [stored]
    -- What was stored was written with the markers so far, and one more changes nothing in it.
    have hearlier : calls.map (write (s.markers (calls.length + 1))) =
        calls.map (write (s.markers calls.length)) := by
      apply List.map_congr_left
      intro earlier hmem
      rw [markers_succ, write_table_append ((s.length_markers _).symm ▸ hcalls.valid earlier hmem)]
    have hcontent' : write (s.markers (calls.length + 1)) content =
        write (s.markers calls.length) content := by
      rw [markers_succ, write_table_append ((s.length_markers _).symm ▸ hcontent)]
    rw [insertAll_concat, ih, hlength, ← markers_succ, stored, stored, List.length_append,
      List.length_singleton, List.map_append, List.map_singleton, hearlier, hcontent',
      List.append_assoc]

/-- **As many passes as a text is nested deep write out what it means.** -/
theorem resolveWithin_write {n : Nat} {pieces : List Piece}
    (h : ∀ p ∈ pieces, p.Valid calls.length) (hnesting : nesting (depths calls) pieces ≤ n) :
    (s.stored calls).resolveWithin n (write (s.markers calls.length) pieces) =
        write (contents calls) pieces ∧
      delimiter ∉ write (contents calls) pieces := by
  induction n generalizing pieces with
  | zero => exact write_of_nesting_zero hcalls h hnesting _
  | succ n ih =>
    -- A pass takes one level off, and what is left means the same.
    have hrest := ih (valid_outermost hcalls h) (nesting_outermost hcalls h hnesting)
    rw [write_contents_outermost hcalls h] at hrest
    rwa [resolveWithin_succ, resolveOnce_write s h]

end

/-! ## Complete resolution -/

/-- A text that holds a marker holds its delimiters. -/
theorem not_marker_infix {t : Text} (ht : delimiter ∉ t) (n : Nat) : ¬marker n <:+: t := by
  rintro ⟨before, after, rfl⟩
  apply ht
  have hhead : delimiter ∈ marker n := List.mem_append_left _ (List.mem_append_left _ (by decide))
  exact List.mem_append_left _ (List.mem_append_right _ hhead)

/-- **Markers are resolved completely**, up to sixteen levels deep. What an expander resolves is
then free of markers, and is not changed by resolving it again. Without stored pieces nothing is
changed at all, so a command line prints what was rendered. -/
theorem resolves_nested {m : Type → Type} [Monad m] (e : Render.Expander m) :
    (∀ calls pieces, Ordered calls → (∀ p ∈ pieces, Piece.Valid calls.length p) →
      nesting (depths calls) pieces ≤ 16 →
      let (stash, markers) := e.stash.insertAll calls
      let resolve := { e with stash }.service.resolve
      let written := write (contents calls) pieces
      resolve (write markers pieces) = pure written ∧ (∀ n, ¬marker n <:+: written) ∧
        resolve written = pure written) ∧
    (e.stash.items = [] → ∀ t, e.service.resolve t = pure t) ∧
    ∀ settings bindings fragment,
      (CommandLine.output settings bindings fragment).standardOutput =
        (Id.run ((Render.Expander.escaping (CommandLine.bindAll bindings)).render settings
          (fun _ => pure ()) fragment)).html := by
  refine ⟨?_, ?_, ?_⟩
  · intro calls pieces hcalls hpieces hnesting
    obtain ⟨hresolved, hdelimiter⟩ := resolveWithin_write e.stash hcalls hpieces hnesting
    rw [insertAll_eq e.stash hcalls]
    refine ⟨congrArg pure hresolved, not_marker_infix hdelimiter, ?_⟩
    exact congrArg pure (resolve_of_not_mem _ hdelimiter)
  · intro hitems t
    have hstash : e.stash = {} := by
      rw [← hitems]
    change pure (e.stash.resolve t) = pure t
    rw [hstash, resolve_empty]
  · intro settings bindings fragment
    exact resolve_empty _

/-- Three calls: the third uses the second, and both use the first. -/
def nestedCalls : List (List Piece) :=
  [[.text "<b>".toList], [.text "[".toList, .item 0, .text "]".toList], [.item 1, .item 0]]

/-- A text that uses the deepest call and the first. -/
def nestedPieces : List Piece := [.text "a ".toList, .item 2, .text " c ".toList, .item 0]

theorem ordered_nestedCalls : Ordered nestedCalls :=
  .concat (.concat (.concat .nil (by decide)) (by decide)) (by decide)

theorem resolves_nested_nestedCalls :
    nesting (depths nestedCalls) nestedPieces = 3 ∧
    ((insertAll ⟨["c".toList]⟩ nestedCalls).1.resolve
        (write (insertAll ⟨["c".toList]⟩ nestedCalls).2 nestedPieces) =
      "a [<b>]<b> c <b>".toList) := by
  have h := (resolves_nested (Render.Expander.escaping (m := Id) .empty ⟨["c".toList]⟩)).1
    nestedCalls nestedPieces ordered_nestedCalls (by decide) (by decide)
  exact ⟨by decide, h.1⟩

end Stencil.Stash
