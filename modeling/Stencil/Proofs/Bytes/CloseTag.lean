import Mathlib.Order.Bounds.Basic
import Stencil.Proofs.Bytes.Loops

/-!
# The first close tag

`ClosesAt` says where a close tag starts in a list of bytes, whatever a scan does to find one. The
scan goes from one opening bracket to the next, and stops early where a close tag does not fit any
more. No turn of it passes a close tag (`outcome_closeTagTurn`), so it ends with the first one, or
there is none (`found_of_ends`). In a text both ends of what it finds lie between characters, and
the text is cut there (`finds_first_closeTag`).
-/

namespace Stencil.Bytes

open Text (bytes byteLength)
open Html

/-- Whether a close tag of `name` starts at a position: an opening bracket, a slash, the name in any
case, and then a character that ends a name, or the end. -/
def ClosesAt (name : Text) (bs : List UInt8) (s : Nat) : Prop :=
  ∃ written after : Text, (bs.drop s).map char = '<' :: '/' :: (written ++ after) ∧
    Ascii.sameName written name = true ∧ after.head?.all Tag.endsName = true

/-- Whether a position is one past the first closing bracket from another on, or the end if there is
none. -/
def EndsTag (bs : List UInt8) (i e : Nat) : Prop :=
  (∃ k, IsLeast {j | i ≤ j ∧ (bs[j]?).any (is (· = '>')) = true} k ∧ e = k + 1) ∨
    (∀ j, i ≤ j → (bs[j]?).any (is (· = '>')) = false) ∧ e = bs.length

/-- What a scan from a position on may answer. -/
inductive Found (name : Text) (bs : List UInt8) (i : Nat) : Option (Nat × Nat) → Prop where
  | nowhere (h : ∀ s, i ≤ s → ¬ClosesAt name bs s) : Found name bs i none
  | first {s e : Nat} (hs : IsLeast {j | i ≤ j ∧ ClosesAt name bs j} s)
      (he : EndsTag bs (s + (name.length + 2)) e) : Found name bs i (some (s, e))

/-- What one turn of the scan may do. -/
inductive CloseTagOutcome (name : Text) (bs : List UInt8) (i : Nat) :
    Turn Nat (Option (Nat × Nat)) → Prop where
  | done {r : Option (Nat × Nat)} (h : Found name bs i r) : CloseTagOutcome name bs i (.done r)
  | again {j : Nat} (hle : i ≤ j) (h : ∀ s, i ≤ s → s < j → ¬ClosesAt name bs s) :
      CloseTagOutcome name bs i (.again j)

/-- Whether positions are those between which a text is cut, if it is cut. -/
inductive Cuts (t : Text) : Option (Nat × Nat) → Option (Text × Text) → Prop where
  | none : Cuts t none none
  | some {before cut after : Text} (h : t = before ++ cut ++ after) :
      Cuts t (some (byteLength before, byteLength (before ++ cut))) (some (before, after))

variable {name : Text} {bs : List UInt8} {i j s e : Nat}

/-! ## Positions -/

theorem getElem?_of_le (h : i ≤ j) (bs : List UInt8) : (bs.drop i)[j - i]? = bs[j]? := by
  rw [List.getElem?_drop, Nat.add_sub_cancel' h]

theorem not_any_of_seek?_none {p : Char → Bool} (h : seek? p (bs.drop i) = none) (hle : i ≤ j) :
    (bs[j]?).any (is p) = false := by
  have hnone := List.findIdx?_eq_none_iff.1 h
  rw [← getElem?_of_le hle]
  cases hget : (bs.drop i)[j - i]? with
  | none => rfl
  | some b => exact hnone b (List.mem_of_getElem? hget)

theorem isLeast_of_seek? {p : Char → Bool} {k : Nat} (h : seek? p (bs.drop i) = some k) :
    IsLeast {j | i ≤ j ∧ (bs[j]?).any (is p) = true} (i + k) := by
  obtain ⟨hk, hp, hbefore⟩ := List.findIdx?_eq_some_iff_getElem.1 h
  refine ⟨⟨Nat.le_add_right i k, ?_⟩, ?_⟩
  · rw [← List.getElem?_drop, List.getElem?_eq_getElem hk]
    exact hp
  · rintro j ⟨hle, hj⟩
    refine Nat.le_of_not_lt fun hlt => hbefore (j - i) (by omega) ?_
    rw [← getElem?_of_le hle, List.getElem?_eq_getElem (by omega)] at hj
    exact hj

theorem endsTag_of_le (h : i ≤ bs.length) :
    ∃ e, afterBracketAt? bs i = some e ∧ EndsTag bs i e := by
  rw [afterBracketAt?, after?, if_pos h, Option.map_some]
  refine ⟨_, rfl, ?_⟩
  cases hseek : seek? (· = '>') (bs.drop i) with
  | none => exact .inr ⟨fun j => not_any_of_seek?_none hseek, rfl⟩
  | some k => exact .inl ⟨i + k, isLeast_of_seek? hseek, rfl⟩

/-! ## Where a close tag starts -/

theorem any_is (p : Char → Bool) (b? : Option UInt8) : b?.any (is p) = (b?.map char).any p := by
  rw [Option.any_map]
  rfl

theorem all_is (p : Char → Bool) (b? : Option UInt8) : b?.all (is p) = (b?.map char).all p := by
  rw [Option.all_map]
  rfl

theorem getElem?_chars (bs : List UInt8) (s k : Nat) :
    ((bs.drop s).map char)[k]? = (bs[s + k]?).map char := by
  rw [List.getElem?_map, List.getElem?_drop]

theorem chars_of_any {c : Char} (h : (bs[s]?).any (is (· = c)) = true) :
    (bs.drop s).map char = c :: (bs.drop (s + 1)).map char := by
  cases hb : bs[s]? with
  | none => rw [hb] at h; cases h
  | some b =>
    obtain ⟨hs, rfl⟩ := List.getElem?_eq_some_iff.1 hb
    rw [hb] at h
    rw [List.drop_eq_getElem_cons hs, List.map_cons, show char bs[s] = c from of_decide_eq_true h]

theorem startsWithName_iff : startsWithName bs i name = true ↔ i + name.length ≤ bs.length ∧
    Ascii.sameName (((bs.drop i).map char).take name.length) name = true := by
  have hlower : Ascii.lower (((bs.drop i).map char).take name.length) =
      ((bs.drop i).take name.length).map fun b => (char b).toLower := by
    rw [Ascii.lower, ← List.map_take, List.map_map]
    rfl
  rw [startsWithName, Ascii.sameName, hlower, Bool.and_eq_true, decide_eq_true_iff]

theorem ClosesAt.fits (h : ClosesAt name bs s) : s + (name.length + 2) ≤ bs.length := by
  obtain ⟨written, after, ht, hw, -⟩ := h
  have hlength := congrArg List.length ht
  rw [List.length_map, List.length_drop, List.length_cons, List.length_cons, List.length_append,
    Tag.length_of_sameName hw] at hlength
  omega

/-- A close tag starts where the scan says that one does. -/
theorem closesAt_iff : ClosesAt name bs s ↔
    (bs[s]?).any (is (· = '<')) = true ∧ (bs[s + 1]?).any (is (· = '/')) = true ∧
      startsWithName bs (s + 2) name = true ∧
        (bs[s + (name.length + 2)]?).all (is Tag.endsName) = true := by
  have hend : s + (name.length + 2) = s + 2 + name.length := by omega
  rw [startsWithName_iff, any_is, any_is, all_is, hend, ← getElem?_chars bs (s + 2)]
  constructor
  · intro h
    have hfits := h.fits
    obtain ⟨written, after, ht, hw, hafter⟩ := h
    have hfirst := getElem?_chars bs s 0
    have hsecond := getElem?_chars bs s 1
    have hrest : (bs.drop (s + 2)).map char = written ++ after := by
      rw [← List.drop_drop, List.map_drop, ht]
      rfl
    rw [ht] at hfirst hsecond
    rw [← hsecond, show bs[s]?.map char = some '<' from hfirst.symm, hrest,
      ← Tag.length_of_sameName hw, List.take_left, List.getElem?_append_right (Nat.le_refl _),
      Nat.sub_self, ← List.head?_eq_getElem?, Tag.length_of_sameName hw]
    exact ⟨rfl, rfl, ⟨by omega, hw⟩, hafter⟩
  · rintro ⟨hopen, hslash, ⟨-, hw⟩, hafter⟩
    rw [← any_is] at hopen hslash
    refine ⟨((bs.drop (s + 2)).map char).take name.length,
      ((bs.drop (s + 2)).map char).drop name.length, ?_, hw, ?_⟩
    · rw [List.take_append_drop, chars_of_any hopen, chars_of_any hslash]
    · rwa [List.head?_drop]

theorem ClosesAt.bracket (h : ClosesAt name bs s) : (bs[s]?).any (is (· = '<')) = true :=
  (closesAt_iff.1 h).1

/-! ## The scan -/

/-- **A turn passes no close tag**, and never fails. -/
theorem outcome_closeTagTurn (hname : IsAscii name) (bs : List UInt8) (i : Nat) :
    CloseTagOutcome name bs i (closeTagTurn name bs i) := by
  rw [closeTagTurn, byteLength_of_ascii hname]
  split
  · next hfits =>
    rw [after?, if_pos (by omega)]
    dsimp only
    split
    · next hseek =>
      refine .done (.nowhere fun s hs hcloses => ?_)
      have hbracket := hcloses.bracket
      rw [not_any_of_seek?_none hseek hs] at hbracket
      cases hbracket
    · next k hseek =>
      obtain ⟨⟨-, hbracket⟩, hleast⟩ := isLeast_of_seek? hseek
      -- A close tag starts with an opening bracket, and there is none before this one.
      have hbefore : ∀ s, i ≤ s → s < i + k → ¬ClosesAt name bs s := fun s hs hlt hcloses =>
        Nat.not_lt.2 (hleast ⟨hs, hcloses.bracket⟩) hlt
      split
      · next hshort =>
        -- What starts here or further on does not fit.
        refine .done (.nowhere fun s hs hcloses => ?_)
        have hfits := hcloses.fits
        exact hbefore s hs (by omega) hcloses
      · next hlong =>
        have hinside : i + k + 1 < bs.length := by omega
        have hget : bs[i + k + 1]? = some bs[i + k + 1] := List.getElem?_eq_getElem hinside
        have htest : (is (· = '/') bs[i + k + 1] && startsWithName bs (i + k + 2) name &&
            (bs[i + k + (name.length + 2)]?).all (is Tag.endsName)) = true ↔
              ClosesAt name bs (i + k) := by
          rw [closesAt_iff, hget, Option.any_some, Bool.and_eq_true, Bool.and_eq_true, and_assoc]
          exact (and_iff_right hbracket).symm
        rw [hget]
        dsimp only
        split
        · next hclose =>
          have hcloses := htest.1 hclose
          obtain ⟨e, he, hends⟩ := endsTag_of_le hcloses.fits
          rw [he]
          refine .done (.first ⟨⟨Nat.le_add_right i k, hcloses⟩, ?_⟩ hends)
          rintro s ⟨hs, hs'⟩
          exact Nat.le_of_not_lt fun hlt => hbefore s hs hlt hs'
        · next hclose =>
          refine .again (by omega) fun s hs hlt hcloses => ?_
          rcases Nat.lt_or_eq_of_le (Nat.le_of_lt_succ hlt) with hlt | rfl
          · exact hbefore s hs hlt hcloses
          · exact hclose (htest.2 hcloses)
  · next hfits =>
    refine .done (.nowhere fun s hs hcloses => ?_)
    have hfits := hcloses.fits
    omega

theorem Found.of_passed {r : Option (Nat × Nat)} (hle : i ≤ j)
    (h : ∀ s, i ≤ s → s < j → ¬ClosesAt name bs s) (hfound : Found name bs j r) :
    Found name bs i r := by
  cases hfound with
  | nowhere hnone =>
    refine .nowhere fun s hs hcloses => ?_
    rcases Nat.lt_or_ge s j with hlt | hge
    · exact h s hs hlt hcloses
    · exact hnone s hge hcloses
  | first hs he =>
    obtain ⟨⟨hge, hcloses⟩, hleast⟩ := hs
    refine .first ⟨⟨Nat.le_trans hle hge, hcloses⟩, ?_⟩ he
    rintro s ⟨hs, hs'⟩
    exact hleast ⟨Nat.le_of_not_lt fun hlt => h s hs hlt hs', hs'⟩

/-- **A scan that ends has found the first close tag**, or there is none. -/
theorem found_of_ends (hname : IsAscii name) {n : Nat} {r : Option (Nat × Nat)}
    (h : Ends (closeTagTurn name bs) n i r) : Found name bs i r := by
  induction h with
  | @done n i r hturn =>
    have houtcome := outcome_closeTagTurn hname bs i
    rw [hturn] at houtcome
    cases houtcome with
    | done hfound => exact hfound
  | @again n i j r hturn _ ih =>
    have houtcome := outcome_closeTagTurn hname bs i
    rw [hturn] at houtcome
    cases houtcome with
    | again hle hpassed => exact ih.of_passed hle hpassed

theorem EndsTag.eq {e' : Nat} (h : EndsTag bs i e) (h' : EndsTag bs i e') : e = e' := by
  rcases h with ⟨k, hk, rfl⟩ | ⟨hnone, rfl⟩
  · rcases h' with ⟨k', hk', rfl⟩ | ⟨hnone, -⟩
    · rw [hk.unique hk']
    · have hget := hk.1.2
      rw [hnone k hk.1.1] at hget
      cases hget
  · rcases h' with ⟨k, hk, rfl⟩ | ⟨-, rfl⟩
    · have hget := hk.1.2
      rw [hnone k hk.1.1] at hget
      cases hget
    · rfl

section

variable {r : Option (Nat × Nat)}

theorem Found.eq_none_iff (h : Found name bs 0 r) : r = none ↔ ∀ s, ¬ClosesAt name bs s := by
  cases h with
  | nowhere h => exact iff_of_true rfl fun s => h s (Nat.zero_le s)
  | first hs => exact iff_of_false (Option.some_ne_none _) fun h => h _ hs.1.2

theorem Found.eq_some_iff (h : Found name bs 0 r) : r = some (s, e) ↔
    IsLeast {j | ClosesAt name bs j} s ∧ EndsTag bs (s + (name.length + 2)) e := by
  cases h with
  | nowhere h =>
    exact iff_of_false (Option.some_ne_none _).symm fun hs => h s (Nat.zero_le s) hs.1.1
  | @first s' e' hs he =>
    have hs : IsLeast {j | ClosesAt name bs j} s' := by simpa only [Nat.zero_le, true_and] using hs
    rw [Option.some_inj, Prod.mk.injEq]
    constructor
    · rintro ⟨rfl, rfl⟩
      exact ⟨hs, he⟩
    · rintro ⟨hs', he'⟩
      obtain rfl := hs.unique hs'
      exact ⟨rfl, he.eq he'⟩

theorem cuts_of_agrees {t : Text} (h : Agrees t r ((Tag.cutCloseTag? name t).map
    fun (before, after) => (0 + byteLength before, after))) :
    Cuts t r (Tag.cutCloseTag? name t) := by
  cases hcut : Tag.cutCloseTag? name t with
  | none =>
    rw [hcut] at h
    cases h
    exact .none
  | some p =>
    obtain ⟨before, after⟩ := p
    obtain ⟨rest, hrest⟩ := Tag.prefix_of_cutCloseTag? hcut
    have hlength := Tag.length_of_cutCloseTag? hcut
    rw [hcut] at h
    cases h with
    | some hend =>
      obtain ⟨front, hfront, rfl⟩ := hend
      have hle : before.length ≤ front.length := by
        have hlength' := congrArg List.length hfront
        rw [List.length_append] at hlength'
        omega
      obtain ⟨cut, rfl⟩ : before <+: front :=
        List.prefix_of_prefix_length_le ⟨rest, hrest.symm⟩ ⟨after, hfront.symm⟩ hle
      rw [Nat.zero_add]
      exact .some hfront

end

/-- **The first close tag is found exactly.** The scan of a text for a close tag never fails. It
answers with a position and the end of the tag there just when that is the first position at which a
close tag starts, and with nothing just when none starts anywhere. Both positions lie between
characters, and the text is cut there. -/
theorem finds_first_closeTag {name : Text} (hname : IsAscii name) (t : Text) :
    ∃ found, closeTagFrom? name (bytes t) 0 = some found ∧
      (∀ s e, found = some (s, e) ↔ IsLeast {j | ClosesAt name (bytes t) j} s ∧
        EndsTag (bytes t) (s + (name.length + 2)) e) ∧
      (found = none ↔ ∀ s, ¬ClosesAt name (bytes t) s) ∧
      Cuts t found (Tag.cutCloseTag? name t) := by
  obtain ⟨found, hfound, hends⟩ := (loopsEnd (At.start t)).closeTag name hname
  obtain ⟨found', hfound', hagrees⟩ := reads_closeTagFrom? hname (At.start t)
  obtain rfl : found = found' := Option.some.inj (hfound.symm.trans hfound')
  have hfirst := found_of_ends hname hends
  exact ⟨found, hfound, fun s e => hfirst.eq_some_iff, hfirst.eq_none_iff, cuts_of_agrees hagrees⟩

/-- A close tag that starts inside one of another name and ends with the text. -/
def overlappedTag : Text := "é</scri</SCRIPT".toList

theorem finds_first_closeTag_overlappedTag :
    IsAscii "script".toList ∧
    closeTagFrom? "script".toList (bytes overlappedTag) 0 = some (some (8, 16)) ∧
    IsLeast {j | ClosesAt "script".toList (bytes overlappedTag) j} 8 ∧
    EndsTag (bytes overlappedTag) 16 16 := by
  have hname : IsAscii "script".toList := by decide
  have hcut : Tag.cutCloseTag? "script".toList overlappedTag = some ("é</scri".toList, []) := by
    decide +kernel
  obtain ⟨found, hfound, hsome, -, hcuts⟩ := finds_first_closeTag hname overlappedTag
  rw [hcut] at hcuts
  obtain rfl : found = some (8, 16) := by
    cases hcuts with
    | @some _ cut _ h =>
      have hlength := congrArg byteLength h
      rw [List.append_nil] at hlength
      rw [← hlength]
      rfl
  obtain ⟨hfirst, hend⟩ := (hsome 8 16).1 rfl
  exact ⟨hname, hfound, hfirst, hend⟩

end Stencil.Bytes
