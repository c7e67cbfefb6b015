import Stencil.Proofs.Bytes.Fragment
import Stencil.Proofs.Html.Stream

/-!
# Loops by bytes

The loops of a scanner that goes by bytes, each given by what one turn of it does, so that nothing
but the turns says whether it ends (`Ends`). From wherever the scanner stands in a text every loop
ends with what it reads, after at most one turn for each byte that is left and one more
(`loopsEnd`), because each turn that goes on moves on. With the bound on the tokens this is what it
takes for a scanner to finish (`finishes`): it hands out at most as many tokens as the text has
bytes, and nothing after them.
-/

namespace Stencil.Bytes

open Text (bytes byteLength)
open Html

/-! ## Turns -/

/-- What one turn of a loop does: it fails, goes on from a state, or ends with a result. -/
inductive Turn (σ ρ : Type) where
  | fail
  | again (s : σ)
  | done (r : ρ)

/-- Whether a loop ends from a state with a result, after at most so many turns. -/
inductive Ends {σ ρ : Type} (turn : σ → Turn σ ρ) : Nat → σ → ρ → Prop where
  | done {n : Nat} {s : σ} {r : ρ} (h : turn s = .done r) : Ends turn (n + 1) s r
  | again {n : Nat} {s s' : σ} {r : ρ} (h : turn s = .again s') (hend : Ends turn n s' r) :
      Ends turn (n + 1) s r

/-- A loop over positions that passes bytes one by one, as long as a condition holds. -/
def passTurn (bs : List UInt8) (more : Nat → Bool) (k : Nat) : Turn Nat Nat :=
  if k < bs.length && more k then .again (k + 1) else .done k

/-- Whether an unquoted value goes on with the byte at a position. -/
def inUnquoted (bs : List UInt8) (k : Nat) : Bool :=
  (bs[k]?).any fun b => !(is Ascii.isBlank b || is (· = '>') b ||
    (is (· = '/') b && (bs[k + 1]?).any (is (· = '>'))))

/-- Reading lexemes until one is a token that is not text. -/
def pullTurn (t : Text) : Text × Nat → Turn (Text × Nat) ((Text × Option Token) × Nat)
  | (run, i) =>
    if i < (bytes t).length then
      match lexemeAt? t i with
      | none => .fail
      | some (.text s, j) => .again (run ++ s, j)
      | some (.nothing, j) => .again (run, j)
      | some (.token k, j) => .done ((run, some k), j)
    else .done ((run, none), i)

/-- Reading attributes until the tag ends, or the text. -/
def attributesTurn (t : Text) : List WrittenAttribute × Nat →
    Turn (List WrittenAttribute × Nat) (Option ((List WrittenAttribute × Bool) × Nat))
  | (found, i) =>
    let k := skipWhile Ascii.isBlank (bytes t) i
    match (bytes t)[k]? with
    | none => .done none
    | some b =>
      if is (· = '>') b then .done (some ((found, false), k + 1))
      else if is (· = '/') b then
        if ((bytes t)[k + 1]?).any (is (· = '>')) then .done (some ((found, true), k + 2))
        else .again (found, k + 1)
      else
        match attributeAt? t k with
        | none => .fail
        | some none => .done none
        | some (some (a, j)) => .again (Tag.addNew found a, j)

/-- Looking for a close tag, from one opening bracket to the next. -/
def closeTagTurn (name : Text) (bs : List UInt8) (i : Nat) : Turn Nat (Option (Nat × Nat)) :=
  if i + (byteLength name + 2) ≤ bs.length then
    match after? bs i with
    | none => .fail
    | some rest =>
      match seek? (· = '<') rest with
      | none => .done none
      | some k =>
        if bs.length < i + k + (byteLength name + 2) then .done none
        else
          match bs[i + k + 1]? with
          | none => .fail
          | some b =>
            if is (· = '/') b && startsWithName bs (i + k + 2) name &&
                (bs[i + k + (byteLength name + 2)]?).all (is Tag.endsName) then
              match afterBracketAt? bs (i + k + (byteLength name + 2)) with
              | none => .fail
              | some e => .done (some (i + k, e))
            else .again (i + k + 1)
  else .done none

/-- Decoding references, with nothing copied yet from a position on. -/
def decodeTurn (t : Text) : Nat × Nat × Text → Turn (Nat × Nat × Text) Text
  | (i, copied, out) =>
    match (bytes t)[i]? with
    | none =>
      if copied < (bytes t).length then
        match from? t copied with
        | none => .fail
        | some rest => .done (out ++ rest)
      else .done out
    | some b =>
      if is (· = '&') b then
        match if copied < i then range? t copied i else some [] with
        | none => .fail
        | some run =>
          match referenceAt? t i with
          | none => .fail
          | some none => .again (i + 1, i + 1, out ++ run ++ ['&'])
          | some (some (meaning, j)) => .again (j, j, out ++ run ++ meaning)
      else .again (i + 1, copied, out)

/-- What is known of the loops from a position on: each ends with what its reader reads, after at
most one turn for each byte that is left and one more. -/
structure LoopsEnd (t : Text) (i : Nat) : Prop where
  /-- Blanks, names and runs of digits are passed byte by byte. -/
  pass (more : Nat → Bool) :
    ∃ e, Ends (passTurn (bytes t) more) ((bytes t).length - i + 1) i e
  skip (p : Char → Bool) :
    Ends (passTurn (bytes t) fun k => ((bytes t)[k]?).any (is p)) ((bytes t).length - i + 1) i
      (skipWhile p (bytes t) i)
  unquoted : Ends (passTurn (bytes t) (inUnquoted (bytes t))) ((bytes t).length - i + 1) i
    (unquotedEnd ((bytes t).drop i) i)
  pull (run : Text) : ∃ r, pullFrom? t run i = some r ∧
    Ends (pullTurn t) ((bytes t).length - i + 1) (run, i) r
  attributes (found : List WrittenAttribute) : ∃ r, attributesFrom? t i found = some r ∧
    Ends (attributesTurn t) ((bytes t).length - i + 1) (found, i) r
  closeTag (name : Text) (hname : IsAscii name) : ∃ r, closeTagFrom? name (bytes t) i = some r ∧
    Ends (closeTagTurn name (bytes t)) ((bytes t).length - i + 1) i r
  decode (out : Text) : ∃ r, decodeFrom? t i i out = some r ∧
    Ends (decodeTurn t) ((bytes t).length - i + 1) (i, i, out) r

/-- A loop ends with what a reader reads if every turn ends with it, or goes on from a state that
has less to go. -/
theorem Ends.of_reads {σ ρ : Type} {turn : σ → Turn σ ρ} (read : σ → Option ρ) (left : σ → Nat)
    (h : ∀ s r, read s = some r →
      turn s = .done r ∨ ∃ s', turn s = .again s' ∧ left s' < left s ∧ read s' = some r)
    {s : σ} {r : ρ} (hr : read s = some r) {n : Nat} (hn : left s ≤ n) :
    Ends turn (n + 1) s r := by
  induction n generalizing s with
  | zero =>
    rcases h s r hr with hdone | ⟨s', -, hless, -⟩
    · exact .done hdone
    · omega
  | succ n ih =>
    rcases h s r hr with hdone | ⟨s', hagain, hless, hr'⟩
    · exact .done hdone
    · exact .again hagain (ih hr' (by omega))

/-! ## Byte by byte -/

theorem ends_passTurn (bs : List UInt8) (more : Nat → Bool) (i : Nat) :
    ∃ e, Ends (passTurn bs more) (bs.length - i + 1) i e := by
  induction hn : bs.length - i generalizing i with
  | zero => exact ⟨i, .done (if_neg (by simp; omega))⟩
  | succ n ih =>
    cases hmore : more i with
    | false => exact ⟨i, .done (if_neg (by simp [hmore]))⟩
    | true =>
      obtain ⟨e, hend⟩ := ih (i + 1) (by omega)
      exact ⟨e, .again (if_pos (by simp [hmore]; omega)) hend⟩

/-- Passing bytes ends where a scan of the rest does that passes one byte after another. -/
theorem ends_passTurn_scan {bs : List UInt8} {more : Nat → Bool} (scan : List UInt8 → Nat → Nat)
    (hnil : ∀ k, scan [] k = k)
    (hcons : ∀ k b, bs[k]? = some b → scan (bs.drop k) k =
      if more k then scan (bs.drop (k + 1)) (k + 1) else k) (i : Nat) :
    Ends (passTurn bs more) (bs.length - i + 1) i (scan (bs.drop i) i) := by
  refine Ends.of_reads (fun k => some (scan (bs.drop k) k)) (bs.length - ·) (fun k r hr => ?_) rfl
    (Nat.le_refl _)
  obtain rfl := Option.some.inj hr
  rcases Nat.lt_or_ge k bs.length with hk | hk
  · have hscan := hcons k bs[k] (List.getElem?_eq_getElem hk)
    cases hmore : more k with
    | true =>
      rw [hmore, if_pos rfl] at hscan
      exact .inr ⟨k + 1, if_pos (by simp [hk, hmore]), by omega, congrArg some hscan.symm⟩
    | false =>
      rw [hmore, if_neg Bool.false_ne_true] at hscan
      rw [hscan]
      exact .inl (if_neg (by simp [hmore]))
  · rw [List.drop_of_length_le hk, hnil]
    exact .inl (if_neg (by simp; omega))

theorem ends_skipWhile (p : Char → Bool) (bs : List UInt8) (i : Nat) :
    Ends (passTurn bs fun k => (bs[k]?).any (is p)) (bs.length - i + 1) i (skipWhile p bs i) := by
  refine ends_passTurn_scan (fun rest k => k + (rest.takeWhile (is p)).length) (fun k => rfl)
    (fun k b hb => ?_) i
  obtain ⟨hk, rfl⟩ := List.getElem?_eq_some_iff.1 hb
  rw [hb, List.drop_eq_getElem_cons hk, Option.any_some]
  cases hp : is p bs[k] with
  | true =>
    rw [List.takeWhile_cons_of_pos hp, List.length_cons, if_pos rfl]
    omega
  | false =>
    rw [List.takeWhile_cons_of_neg (by simp [hp]), if_neg Bool.false_ne_true]
    rfl

theorem ends_unquotedEnd (bs : List UInt8) (i : Nat) :
    Ends (passTurn bs (inUnquoted bs)) (bs.length - i + 1) i (unquotedEnd (bs.drop i) i) := by
  refine ends_passTurn_scan unquotedEnd (fun k => rfl) (fun k b hb => ?_) i
  obtain ⟨hk, rfl⟩ := List.getElem?_eq_some_iff.1 hb
  have hnext : (bs.drop (k + 1)).head? = bs[k + 1]? := List.head?_drop
  rw [List.drop_eq_getElem_cons hk, unquotedEnd, hnext, inUnquoted, hb, Option.any_some]
  split
  · next hstop => rw [hstop, if_neg (by decide)]
  · next hgo => rw [Bool.eq_false_iff.2 hgo, if_pos (by decide)]

/-! ## Lexeme by lexeme -/

section

variable {t u : Text} {i : Nat}

theorem ends_pullTurn (run : Text) {r : (Text × Option Token) × Nat}
    (h : pullFrom? t run i = some r) :
    Ends (pullTurn t) ((bytes t).length - i + 1) (run, i) r := by
  refine Ends.of_reads (fun s => pullFrom? t s.1 s.2) (fun s => (bytes t).length - s.2) ?_ h
    (Nat.le_refl _)
  rintro ⟨run, i⟩ r hr
  dsimp only at hr ⊢
  rw [pullFrom?] at hr
  split at hr
  · next hlt =>
    split at hr
    · cases hr
    · next x j hlexeme =>
      split at hr
      · next hmoves =>
        cases x with
        | text s =>
          have hturn : pullTurn t (run, i) = .again (run ++ s, j) := by
            simp only [pullTurn, if_pos hlt, hlexeme]
          exact .inr ⟨_, hturn, by dsimp only; omega, hr⟩
        | nothing =>
          have hturn : pullTurn t (run, i) = .again (run, j) := by
            simp only [pullTurn, if_pos hlt, hlexeme]
          exact .inr ⟨_, hturn, by dsimp only; omega, hr⟩
        | token k =>
          cases hr
          exact .inl (by simp only [pullTurn, if_pos hlt, hlexeme])
      · cases hr
  · next hlt =>
    cases hr
    exact .inl (by simp only [pullTurn, if_neg hlt])

theorem ends_attributesTurn (found : List WrittenAttribute)
    {r : Option ((List WrittenAttribute × Bool) × Nat)} (h : attributesFrom? t i found = some r) :
    Ends (attributesTurn t) ((bytes t).length - i + 1) (found, i) r := by
  refine Ends.of_reads (fun s => attributesFrom? t s.2 s.1) (fun s => (bytes t).length - s.2) ?_ h
    (Nat.le_refl _)
  rintro ⟨found, i⟩ r hr
  have hskip := le_skipWhile Ascii.isBlank (bytes t) i
  dsimp only at hr ⊢
  rw [attributesFrom?] at hr
  dsimp only at hr
  split at hr
  · next hget =>
    cases hr
    exact .inl (by simp only [attributesTurn, hget])
  · next b hget =>
    have hlt := (List.getElem?_eq_some_iff.1 hget).1
    split at hr
    · next hb =>
      cases hr
      exact .inl (by simp only [attributesTurn, hget, if_pos hb])
    · next hb =>
      split at hr
      · next hslash =>
        split at hr
        · next hclosed =>
          cases hr
          exact .inl (by
            simp only [attributesTurn, hget, if_neg hb, if_pos hslash, if_pos hclosed])
        · next hclosed =>
          have hturn : attributesTurn t (found, i) =
              .again (found, skipWhile Ascii.isBlank (bytes t) i + 1) := by
            simp only [attributesTurn, hget, if_neg hb, if_pos hslash, if_neg hclosed]
          exact .inr ⟨_, hturn, by dsimp only; omega, hr⟩
      · next hslash =>
        split at hr
        · cases hr
        · next hattribute =>
          cases hr
          exact .inl (by simp only [attributesTurn, hget, if_neg hb, if_neg hslash, hattribute])
        · next a j hattribute =>
          split at hr
          · next hmoves =>
            have hturn : attributesTurn t (found, i) = .again (Tag.addNew found a, j) := by
              simp only [attributesTurn, hget, if_neg hb, if_neg hslash, hattribute]
            exact .inr ⟨_, hturn, by dsimp only; omega, hr⟩
          · cases hr

theorem ends_decodeTurn {copied : Nat} (out : Text) {r : Text}
    (h : decodeFrom? t i copied out = some r) :
    Ends (decodeTurn t) ((bytes t).length - i + 1) (i, copied, out) r := by
  refine Ends.of_reads (fun s => decodeFrom? t s.1 s.2.1 s.2.2) (fun s => (bytes t).length - s.1)
    ?_ h (Nat.le_refl _)
  rintro ⟨i, copied, out⟩ r hr
  dsimp only at hr ⊢
  rw [decodeFrom?] at hr
  split at hr
  · next hget =>
    split at hr
    · next hleft =>
      obtain ⟨rest, hrest, rfl⟩ := Option.map_eq_some_iff.1 hr
      exact .inl (by simp only [decodeTurn, hget, if_pos hleft, hrest])
    · next hleft =>
      cases hr
      exact .inl (by simp only [decodeTurn, hget, if_neg hleft])
  · next b hget =>
    have hlt := (List.getElem?_eq_some_iff.1 hget).1
    dsimp only at hr
    split at hr
    · next hb =>
      split at hr
      · cases hr
      · next run hrun =>
        split at hr
        · cases hr
        · next href =>
          have hturn : decodeTurn t (i, copied, out) =
              .again (i + 1, i + 1, out ++ run ++ ['&']) := by
            simp only [decodeTurn, hget, if_pos hb, hrun, href]
          exact .inr ⟨_, hturn, by dsimp only; omega, hr⟩
        · next meaning j href =>
          split at hr
          · next hmoves =>
            have hturn : decodeTurn t (i, copied, out) = .again (j, j, out ++ run ++ meaning) := by
              simp only [decodeTurn, hget, if_pos hb, hrun, href]
            exact .inr ⟨_, hturn, by dsimp only; omega, hr⟩
          · cases hr
    · next hb =>
      have hturn : decodeTurn t (i, copied, out) = .again (i + 1, copied, out) := by
        simp only [decodeTurn, hget, if_neg hb]
      exact .inr ⟨_, hturn, by dsimp only; omega, hr⟩

theorem ends_closeTagTurn (name : Text) {bs : List UInt8} {r : Option (Nat × Nat)}
    (h : closeTagFrom? name bs i = some r) :
    Ends (closeTagTurn name bs) (bs.length - i + 1) i r := by
  refine Ends.of_reads (closeTagFrom? name bs) (bs.length - ·) ?_ h (Nat.le_refl _)
  intro i r hr
  rw [closeTagFrom?] at hr
  split at hr
  · next hfits =>
    split at hr
    · cases hr
    · next rest hafter =>
      split at hr
      · next hseek =>
        cases hr
        exact .inl (by simp only [closeTagTurn, if_pos hfits, hafter, hseek])
      · next k hseek =>
        split at hr
        · next hshort =>
          cases hr
          exact .inl (by simp only [closeTagTurn, if_pos hfits, hafter, hseek, if_pos hshort])
        · next hlong =>
          split at hr
          · cases hr
          · next b hget =>
            split at hr
            · next hclose =>
              obtain ⟨e, he, rfl⟩ := Option.map_eq_some_iff.1 hr
              exact .inl (by
                simp only [closeTagTurn, if_pos hfits, hafter, hseek, if_neg hlong, hget,
                  if_pos hclose, he])
            · next hclose =>
              have hturn : closeTagTurn name bs i = .again (i + k + 1) := by
                simp only [closeTagTurn, if_pos hfits, hafter, hseek, if_neg hlong, hget,
                  if_neg hclose]
              exact .inr ⟨_, hturn, by omega, hr⟩
  · next hfits =>
    cases hr
    exact .inl (by simp only [closeTagTurn, if_neg hfits])

/-- **Every loop ends**, wherever the scanner stands. -/
theorem loopsEnd (h : At t i u) : LoopsEnd t i where
  pass more := ends_passTurn (bytes t) more i
  skip p := ends_skipWhile p (bytes t) i
  unquoted := ends_unquotedEnd (bytes t) i
  pull run := by
    obtain ⟨j, hr, -⟩ := stands_pullFrom? h run
    exact ⟨_, hr, ends_pullTurn run hr⟩
  attributes found := by
    obtain ⟨r, hr, -⟩ := reads_attributesFrom? h found
    exact ⟨r, hr, ends_attributesTurn found hr⟩
  closeTag name hname := by
    obtain ⟨r, hr, -⟩ := reads_closeTagFrom? hname h
    exact ⟨r, hr, ends_closeTagTurn name hr⟩
  decode out := by
    have hr := decodeFrom?_eq (v := []) h out
    rw [Text.byteLength_nil, Nat.add_zero] at hr
    exact ⟨_, hr, ends_decodeTurn out hr⟩

end

/-! ## Finishing -/

/-- A scanner hands out at most as many tokens as the text has bytes. -/
theorem length_tokens_le_byteLength (answers : Nat → Bool) (t : Text) :
    (Scanner.tokens answers 0 { rest := t }).length ≤ byteLength t :=
  Nat.le_trans (Scanner.length_tokens_le answers 0 { rest := t }) (length_le_byteLength t)

/-- **A scanner finishes.** There are so many calls, no more than the text has bytes, that give a
token, and no call after them gives one, whatever the scanner is told. On the way every loop of it
ends. -/
theorem finishes (answers : Nat → Bool) (t : Text) :
    (∃ n ≤ byteLength t, ∀ k, (Scanner.call answers { rest := t } k).isSome = true ↔ k < n) ∧
      ∀ i u, At t i u → LoopsEnd t i := by
  refine ⟨⟨_, length_tokens_le_byteLength answers t, fun k => ?_⟩, fun i u h => loopsEnd h⟩
  rw [Scanner.call_eq_getElem?, Option.isSome_iff_ne_none, ne_eq, List.getElem?_eq_none_iff,
    Nat.not_le]

/-- A title with an unfinished reference, cut off inside its close tag. -/
def truncatedFragment : Text := "é<title>&#x</titl".toList

theorem finishes_truncatedFragment :
    (∃ n ≤ 18, ∀ k,
      (Scanner.call (fun _ => true) { rest := truncatedFragment } k).isSome = true ↔ k < n) ∧
    At truncatedFragment 9 "&#x</titl".toList ∧ LoopsEnd truncatedFragment 9 := by
  obtain ⟨hcalls, hloops⟩ := finishes (fun _ => true) truncatedFragment
  have hat : At truncatedFragment 9 "&#x</titl".toList := ⟨"é<title>".toList, by decide, by decide⟩
  exact ⟨hcalls, hat, hloops 9 _ hat⟩

end Stencil.Bytes
