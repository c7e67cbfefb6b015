import Stencil.Proofs.Bytes.Position
import Stencil.Proofs.Html.Escape
import Stencil.Proofs.Text.Search

/-!
# Character references by bytes

References read at positions of a text: the scan of digits gives up after the most that a code point
has, and that of a name after one more character than the longest name has, so that a text full of
ampersands is not scanned over and over. Every slice has an answer, and the text that is decoded is
that of `Reference.decode` (`decode?_eq`).
-/

namespace Stencil.Bytes

open Text (bytes byteLength)
open Html

/-! ## Numbers -/

/-- How many digits stand in front of a semicolon, after `n` of them. -/
def scanDigits (isDigit : Char → Bool) (most : Nat) : List UInt8 → Nat → Option Nat
  | [], _ => none
  | b :: bs, n =>
    if is (· = ';') b then if 0 < n then some n else none
    else if n = most then none
    else if is isDigit b then scanDigits isDigit most bs (n + 1)
    else none

/-- Reads the digits of a numeric reference from position `j` on, and its semicolon. -/
def numericAt? (isDigit : Char → Bool) (most : Nat) (value : Text → Nat) (t : Text) (j : Nat) :
    Option (Option (Text × Nat)) :=
  match scanDigits isDigit most ((bytes t).drop j) 0 with
  | none => some none
  | some n => (range? t j (j + n)).map fun digits =>
    (Reference.scalar? (value digits)).map fun c => ([c], j + n + 1)

section

variable {isDigit : Char → Bool}

/-- The scan of digits finds those that a semicolon follows, if they are not too many. -/
theorem scanDigits_bytes (hdigit : ∀ c : Char, 128 ≤ c.toNat → isDigit c = false)
    (hsemicolon : isDigit ';' = false) {most : Nat} (u : Text) {n : Nat} (hn : n ≤ most) :
    scanDigits isDigit most (bytes u) n =
      if (u.dropWhile isDigit).head? = some ';' ∧ 0 < n + (u.takeWhile isDigit).length ∧
          n + (u.takeWhile isDigit).length ≤ most
        then some (n + (u.takeWhile isDigit).length) else none := by
  induction u generalizing n with
  | nil =>
    rw [if_neg fun h => nomatch h.1]
    rfl
  | cons c u ih =>
    have hsemi : AsciiOnly fun c => decide (c = ';') := asciiOnly_eq
    obtain ⟨b, hb, hhead⟩ := head?_bytes c u
    obtain ⟨bs, hbytes⟩ := List.head?_eq_some_iff.1 hhead
    have hdigits : is isDigit b = isDigit c := is_of_mem (asciiOnly_of_false hdigit) hb
    rw [hbytes, scanDigits, is_of_mem hsemi hb]
    by_cases hc : c = ';'
    · subst hc
      rw [if_pos (decide_eq_true rfl), List.dropWhile_cons_of_neg (by simp [hsemicolon]),
        List.takeWhile_cons_of_neg (by simp [hsemicolon]), List.length_nil, Nat.add_zero]
      simp only [List.head?_cons, true_and, hn, and_true]
    · rw [if_neg (by simp [hc]), hdigits]
      cases hd : isDigit c with
      | true =>
        have hbs : bytes u = bs := by
          have hascii : c.toNat < 128 := Nat.lt_of_not_le fun hle => by simp [hdigit c hle] at hd
          rw [bytes_cons, utf8EncodeChar_of_ascii hascii hb] at hbytes
          exact (List.cons.inj hbytes).2
        rw [List.dropWhile_cons_of_pos hd, List.takeWhile_cons_of_pos hd, List.length_cons]
        by_cases hmost : n = most
        · rw [if_pos hmost, if_neg fun h => by omega]
        · rw [if_neg hmost, if_pos rfl, ← hbs, ih (by omega), Nat.add_right_comm, Nat.add_assoc n]
      | false =>
        rw [List.dropWhile_cons_of_neg (by simp [hd]), List.takeWhile_cons_of_neg (by simp [hd]),
          if_neg Bool.false_ne_true, ite_self, if_neg fun h => hc (Option.some.inj h.1)]

theorem reads_numericAt? (hdigit : ∀ c : Char, 128 ≤ c.toNat → isDigit c = false)
    (hsemicolon : isDigit ';' = false) (most : Nat) (value : Text → Nat) {t u : Text} {j : Nat}
    (h : At t j u) : Reads t (numericAt? isDigit most value t j)
      (Reference.numeric? isDigit most value u) := by
  have hascii : IsAscii (u.takeWhile isDigit) := isAscii_takeWhile hdigit u
  have hscan := scanDigits_bytes hdigit hsemicolon u (Nat.zero_le most)
  have hstart := h.split isDigit
  rw [Nat.zero_add] at hscan
  rw [numericAt?, h.drop, hscan]
  unfold Reference.numeric?
  generalize u.takeWhile isDigit = run at *
  generalize u.dropWhile isDigit = rest at *
  have hlen := byteLength_of_ascii hascii
  by_cases hsemi : ∃ rest', rest = ';' :: rest'
  · obtain ⟨rest, rfl⟩ := hsemi
    have hfew : (0 < run.length ∧ run.length ≤ most) ↔ ¬(run = [] ∨ most < run.length) := by
      rw [not_or, Nat.not_lt, List.length_pos_iff]
    change Reads t _ (if run = [] ∨ most < run.length then none
      else (Reference.scalar? (value run)).map fun c => ([c], rest))
    by_cases hnone : run = [] ∨ most < run.length
    · rw [if_pos hnone, if_neg fun h => hfew.1 h.2 hnone]
      exact ⟨none, rfl, .none⟩
    · have hslice := hstart.range?
      have hat := hstart.append.tail_ascii
      rw [hlen] at hslice hat
      rw [if_neg hnone, if_pos ⟨List.head?_cons, hfew.2 hnone⟩]
      dsimp only
      rw [hslice, Option.map_some]
      refine ⟨_, rfl, ?_⟩
      cases Reference.scalar? (value run) with
      | none => exact .none
      | some c => exact .some hat
  · rw [if_neg fun h => hsemi (List.head?_eq_some_iff.1 h.1)]
    refine ⟨none, rfl, ?_⟩
    split
    · next rest => exact absurd ⟨rest, rfl⟩ hsemi
    · exact .none

end

/-! ## Names -/

/-- The most characters of a name that are read. -/
def maxNameLength : Nat := 32

/-- Reads the name of a reference from position `j` on, and its semicolon. -/
def nameAt? (t : Text) (j : Nat) : Option (Option (Text × Nat)) :=
  let e := j + min (maxNameLength + 1) (((bytes t).drop j).takeWhile (is Char.isAlphanum)).length
  if e = j ∨ ((bytes t)[e]?).any (is (· = ';')) = false then some none
  else (range? t j e).map fun name =>
    (Reference.named.lookup name).map fun meaning => (meaning, e + 1)

theorem asciiOnly_isAlphanum : AsciiOnly Char.isAlphanum :=
  asciiOnly_of_false fun _ => isAlphanum_of_not_ascii

theorem lookup_of_long {name : Text} (h : name = [] ∨ maxNameLength < name.length) :
    Reference.named.lookup name = none := by
  have hnames : ∀ p ∈ Reference.named, p.1 ≠ [] ∧ p.1.length ≤ maxNameLength := by decide +kernel
  rw [List.lookup_eq_none_iff]
  intro p hp
  obtain ⟨hne, hle⟩ := hnames p hp
  rw [bne_iff_ne]
  rintro rfl
  rcases h with h | h
  · exact hne h
  · omega

theorem reads_nameAt? {t u : Text} {j : Nat} (h : At t j u) :
    Reads t (nameAt? t j) (Reference.name? u) := by
  have hsemi : AsciiOnly fun c => decide (c = ';') := asciiOnly_eq
  have hascii : IsAscii (u.takeWhile Char.isAlphanum) :=
    isAscii_takeWhile (fun _ => isAlphanum_of_not_ascii) u
  have halphanum : ∀ c ∈ u.takeWhile Char.isAlphanum, c.isAlphanum = true :=
    fun c => Text.of_mem_takeWhile
  have hlen : (((bytes t).drop j).takeWhile (is Char.isAlphanum)).length =
      (u.takeWhile Char.isAlphanum).length := by
    rw [h.drop, takeWhile_bytes asciiOnly_isAlphanum, length_bytes, byteLength_of_ascii hascii]
  have hstart := h.split Char.isAlphanum
  unfold nameAt? Reference.name?
  rw [hlen]
  generalize u.takeWhile Char.isAlphanum = run at *
  generalize u.dropWhile Char.isAlphanum = rest at *
  by_cases hfew : run.length ≤ maxNameLength + 1
  · have hslice := hstart.range?
    have hat := hstart.append
    rw [byteLength_of_ascii hascii] at hslice hat
    dsimp only
    rw [Nat.min_eq_right hfew, hat.any_get? hsemi]
    by_cases hrest : ∃ rest', rest = ';' :: rest'
    · obtain ⟨rest, rfl⟩ := hrest
      change Reads t _ ((Reference.named.lookup run).map fun meaning => (meaning, rest))
      by_cases hempty : run = []
      · rw [if_pos (.inl (by rw [hempty]; rfl)), lookup_of_long (.inl hempty)]
        exact ⟨none, rfl, .none⟩
      · have hsome :
            ¬(j + run.length = j ∨ ((';' :: rest).head?.any fun c => c = ';') = false) := by
          have hpos := List.length_pos_iff.2 hempty
          rintro (he | hhead)
          · omega
          · cases hhead
        rw [if_neg hsome, hslice, Option.map_some]
        refine ⟨_, rfl, ?_⟩
        cases Reference.named.lookup run with
        | none => exact .none
        | some meaning => exact .some hat.tail_ascii
    · have hhead : (rest.head?.any fun c => decide (c = ';')) = false := by
        cases rest with
        | nil => rfl
        | cons c rest => exact decide_eq_false fun hc => hrest ⟨rest, by rw [hc]⟩
      rw [if_pos (.inr hhead)]
      refine ⟨none, rfl, ?_⟩
      split
      · next rest => exact absurd ⟨rest, rfl⟩ hrest
      · exact .none
  · -- A name that goes on after the most characters that are read is no name.
    have hlong : maxNameLength < run.length := by omega
    have hat : At t (j + (maxNameLength + 1)) (run.drop (maxNameLength + 1) ++ rest) := by
      have htake : byteLength (run.take (maxNameLength + 1)) = maxNameLength + 1 := by
        rw [byteLength_of_ascii fun c hc => hascii c (List.mem_of_mem_take hc), List.length_take]
        omega
      have happend : At t j (run.take (maxNameLength + 1) ++
          (run.drop (maxNameLength + 1) ++ rest)) := by
        rwa [← List.append_assoc, List.take_append_drop]
      have hend := happend.append
      rwa [htake] at hend
    have hhead : ((run.drop (maxNameLength + 1) ++ rest).head?.any fun c => c = ';') = false := by
      obtain ⟨c, cs, hcs⟩ : ∃ c cs, run.drop (maxNameLength + 1) = c :: cs :=
        List.exists_cons_of_length_pos (by rw [List.length_drop]; omega)
      have hc : c.isAlphanum = true := halphanum c (List.mem_of_mem_drop (hcs ▸ List.mem_cons_self))
      rw [hcs]
      refine decide_eq_false ?_
      rintro rfl
      exact absurd hc (by decide)
    dsimp only
    rw [Nat.min_eq_left (by omega), hat.any_get? hsemi, if_pos (.inr hhead),
      lookup_of_long (.inr hlong)]
    refine ⟨none, rfl, ?_⟩
    split
    · exact .none
    · exact .none

/-! ## References -/

/-- Reads the reference whose ampersand stands at position `i`. -/
def referenceAt? (t : Text) (i : Nat) : Option (Option (Text × Nat)) :=
  if ((bytes t)[i + 1]?).any (is (· = '#')) then
    if ((bytes t)[i + 2]?).any (is fun c => c = 'x' || c = 'X') then
      numericAt? Ascii.isHexDigit Reference.maxHexDigits Ascii.ofHex t (i + 3)
    else numericAt? Char.isDigit Reference.maxDecimalDigits Ascii.ofDecimal t (i + 2)
  else nameAt? t (i + 1)

theorem reads_referenceAt? {t u : Text} {i : Nat} (h : At t i ('&' :: u)) :
    Reads t (referenceAt? t i) (Reference.read? u) := by
  have hnumber : AsciiOnly fun c => decide (c = '#') := asciiOnly_eq
  have hhex : AsciiOnly fun c => decide (c = 'x') || decide (c = 'X') :=
    .or asciiOnly_eq asciiOnly_eq
  have hafter : At t (i + 1) u := h.tail_ascii
  rw [referenceAt?, hafter.any_get? hnumber]
  by_cases hu : ∃ v, u = '#' :: v
  · obtain ⟨v, rfl⟩ := hu
    have hnext : At t (i + 2) v := hafter.tail_ascii
    have hdecimal := reads_numericAt? (fun _ => isDigit_of_not_ascii) (by decide)
      Reference.maxDecimalDigits Ascii.ofDecimal hnext
    have hhexadecimal {w : Text} (hw : At t (i + 3) w) :=
      reads_numericAt? (fun _ => isHexDigit_of_not_ascii) (by decide) Reference.maxHexDigits
        Ascii.ofHex hw
    rw [if_pos (show (('#' :: v).head?.any fun c => decide (c = '#')) = true from rfl),
      hnext.any_get? hhex]
    cases v with
    | nil => exact hdecimal
    | cons c w =>
      by_cases hx : c = 'x'
      · subst hx
        exact hhexadecimal hnext.tail_ascii
      · by_cases hX : c = 'X'
        · subst hX
          exact hhexadecimal hnext.tail_ascii
        · rw [if_neg (by simp [hx, hX])]
          unfold Reference.read?
          split
          · next he => exact absurd (List.cons.inj (List.cons.inj he).2).1 hx
          · next he => exact absurd (List.cons.inj (List.cons.inj he).2).1 hX
          · next he => cases he; exact hdecimal
          · next hnot => exact absurd rfl (hnot _)
  · have hhead : (u.head?.any fun c => decide (c = '#')) = false := by
      cases u with
      | nil => rfl
      | cons c u => exact decide_eq_false fun hc => hu ⟨u, by rw [hc]⟩
    rw [hhead, if_neg Bool.false_ne_true]
    unfold Reference.read?
    split
    · exact absurd ⟨_, rfl⟩ hu
    · exact absurd ⟨_, rfl⟩ hu
    · exact absurd ⟨_, rfl⟩ hu
    · exact reads_nameAt? hafter

/-! ## Decoding -/

/-- Decodes references from position `i` on, where nothing is copied yet from `copied` on. A
reference that ends where it starts would be read forever; it counts as a failure. -/
def decodeFrom? (t : Text) (i copied : Nat) (out : Text) : Option Text :=
  match h : (bytes t)[i]? with
  | none => if copied < (bytes t).length then (from? t copied).map (out ++ ·) else some out
  | some b =>
    have hlt : i < (bytes t).length := (List.getElem?_eq_some_iff.1 h).1
    if is (· = '&') b then
      match if copied < i then range? t copied i else some [] with
      | none => none
      | some run =>
        match referenceAt? t i with
        | none => none
        | some none => decodeFrom? t (i + 1) (i + 1) (out ++ run ++ ['&'])
        | some (some (meaning, j)) =>
          if i < j then decodeFrom? t j j (out ++ run ++ meaning) else none
    else decodeFrom? t (i + 1) copied out
termination_by (bytes t).length - i
decreasing_by all_goals omega

/-- The text with its references decoded. -/
def decode? (t : Text) : Option Text :=
  match seek? (· = '&') (bytes t) with
  | none => some t
  | some first => decodeFrom? t first 0 []

section

variable {t : Text} {i copied : Nat} {out : Text}

theorem decodeFrom?_end (h : (bytes t)[i]? = none) : decodeFrom? t i copied out =
    if copied < (bytes t).length then (from? t copied).map (out ++ ·) else some out := by
  rw [decodeFrom?]
  split
  · rfl
  · next h' =>
    rw [h] at h'
    cases h'

theorem decodeFrom?_pass {b : UInt8} (h : (bytes t)[i]? = some b) (hb : is (· = '&') b = false) :
    decodeFrom? t i copied out = decodeFrom? t (i + 1) copied out := by
  rw [decodeFrom?]
  split
  · next h' =>
    rw [h] at h'
    cases h'
  · next h' =>
    rw [h] at h'
    cases h'
    rw [hb]
    rfl

theorem decodeFrom?_amp {b : UInt8} (h : (bytes t)[i]? = some b) (hb : is (· = '&') b = true)
    {run : Text} (hrun : (if copied < i then range? t copied i else some []) = some run) :
    decodeFrom? t i copied out = match referenceAt? t i with
      | none => none
      | some none => decodeFrom? t (i + 1) (i + 1) (out ++ run ++ ['&'])
      | some (some (meaning, j)) =>
        if i < j then decodeFrom? t j j (out ++ run ++ meaning) else none := by
  rw [decodeFrom?]
  split
  · next h' =>
    rw [h] at h'
    cases h'
  · next h' =>
    rw [h] at h'
    cases h'
    rw [if_pos hb, hrun]

end

theorem byteLength_eq_zero {t : Text} : byteLength t = 0 ↔ t = [] := by
  cases t with
  | nil => exact ⟨fun _ => rfl, fun _ => rfl⟩
  | cons c t =>
    have := c.utf8Size_pos
    rw [Text.byteLength_cons]
    exact ⟨fun h => by omega, fun h => nomatch h⟩

/-- Decoding from an ampersand or a character on, with what was passed before it still to copy. -/
theorem decodeFrom?_eq {t v u : Text} {copied : Nat} (h : At t copied (v ++ u)) (out : Text) :
    decodeFrom? t (copied + byteLength v) copied out =
      some (out ++ v ++ Reference.decode u) := by
  have hamp : AsciiOnly fun c => decide (c = '&') := asciiOnly_eq
  induction hn : u.length using Nat.strongRecOn generalizing v u copied out with
  | ind n ih =>
    subst hn
    have hat := h.append
    cases u with
    | nil =>
      have hlen := hat.length
      rw [decodeFrom?_end hat.get?_nil, Reference.decode_nil, List.append_nil]
      split
      · rw [h.from?, List.append_nil, Option.map_some]
      · have hempty : v = [] := byteLength_eq_zero.1 (by rw [Text.byteLength_nil] at hlen; omega)
        rw [hempty, List.append_nil]
    | cons c u =>
      by_cases hc : c = '&'
      · subst hc
        obtain ⟨b, hget, hb⟩ := hat.get?_cons
        have hafter := hat.tail_ascii
        have hrun : (if copied < copied + byteLength v then range? t copied (copied + byteLength v)
            else some []) = some v := by
          split
          · exact h.range?
          · have hempty : byteLength v = 0 := by omega
            rw [byteLength_eq_zero.1 hempty]
        obtain ⟨r, hr, hagrees⟩ := reads_referenceAt? hat
        rw [decodeFrom?_amp hget (hb _ hamp) hrun, hr]
        cases hread : Reference.read? u with
        | none =>
          rw [hread] at hagrees
          cases hagrees
          have hrest := ih u.length (Nat.lt_succ_self _) (v := []) hafter (out ++ v ++ ['&']) rfl
          rw [Reference.decode_of_read?_none hread]
          simpa using hrest
        | some p =>
          obtain ⟨meaning, rest⟩ := p
          rw [hread] at hagrees
          cases hagrees with
          | some hend =>
            have hlt := Reference.length_of_read? hread
            have hmoves := hat.lt_of_length_lt hend (Nat.lt_succ_of_lt hlt)
            have hrest := ih rest.length (Nat.lt_succ_of_lt hlt) (v := []) hend
              (out ++ v ++ meaning) rfl
            rw [Reference.decode_of_read? hread]
            dsimp only
            rw [if_pos hmoves]
            simpa using hrest
      · have hpass := hat.pass hamp (decide_eq_false hc)
          (f := fun j => decodeFrom? t j copied out) fun j b => decodeFrom?_pass
        have hsplit : At t copied ((v ++ [c]) ++ u) := by
          rwa [List.append_assoc]
        have hrest := ih u.length (Nat.lt_succ_self _) hsplit out rfl
        rw [Text.byteLength_append, ← Nat.add_assoc] at hrest
        rw [hpass, Reference.decode_cons hc]
        rw [show byteLength [c] = c.utf8Size from rfl] at hrest
        rw [hrest]
        simp

/-- **Decoding by bytes never fails**, and decodes what decoding by characters does. -/
theorem decode?_eq (t : Text) : decode? t = some (Reference.decode t) := by
  have hamp : AsciiOnly fun c => decide (c = '&') := asciiOnly_eq
  have hsplit : t.takeWhile (fun c => !decide (c = '&')) ++
      t.dropWhile (fun c => !decide (c = '&')) = t := List.takeWhile_append_dropWhile
  have hplain (v u : Text) (hv : ∀ c ∈ v, c ≠ '&') :
      Reference.decode (v ++ u) = v ++ Reference.decode u := by
    induction v with
    | nil => rfl
    | cons c v ih =>
      rw [List.cons_append, Reference.decode_cons (hv c List.mem_cons_self),
        ih fun d hd => hv d (List.mem_cons_of_mem c hd), List.cons_append]
  have hrun : ∀ c ∈ t.takeWhile (fun c => !decide (c = '&')), c ≠ '&' := by
    intro c hc
    simpa using Text.of_mem_takeWhile hc
  rw [decode?, seek?_bytes hamp]
  have hdecoded := hplain _ (t.dropWhile fun c => !decide (c = '&')) hrun
  have hstart : At t 0 (t.takeWhile (fun c => !decide (c = '&')) ++
      t.dropWhile (fun c => !decide (c = '&'))) := (At.start t).split _
  have hfrom := decodeFrom?_eq hstart []
  rw [hsplit] at hdecoded
  rw [Nat.zero_add] at hfrom
  cases hrest : t.dropWhile (fun c => !decide (c = '&')) with
  | nil =>
    rw [hrest, List.append_nil] at hsplit
    rw [hdecoded, hrest, Reference.decode_nil, List.append_nil, hsplit]
  | cons c u =>
    dsimp only
    rw [hfrom, hdecoded, List.nil_append]

end Stencil.Bytes
