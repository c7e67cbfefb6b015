import Stencil.Proofs.Text.Case
import Stencil.Proofs.Text.Search

/-!
# Positions

A text as its bytes in UTF-8, and positions that count them. A position may fall inside a character,
and a slice of the text there (`from?`, `upTo?`, `range?`) has no answer. `At` ties a position to
the text after it: a scanner that goes by bytes stands where one that goes by characters does,
because what it looks for is ASCII, and no byte of a longer character is (`is_of_mem`). So it stops
where characters start (`At.skipWhile`, `seek?_bytes`), and slices there have answers (`At.from?`,
`At.range?`).
-/

namespace Stencil

/-- The bytes of a text in UTF-8. -/
def Text.bytes (t : Text) : List UInt8 := t.flatMap String.utf8EncodeChar

namespace Bytes

open Text (bytes byteLength)

/-! ## Slices -/

def from? (t : Text) (i : Nat) : Option Text := Text.dropBytes? i t

def upTo? (t : Text) (j : Nat) : Option Text := Text.takeBytes? j t

def range? (t : Text) (i j : Nat) : Option Text :=
  if i ≤ j then Text.slice? t i (j - i) else none

/-- The bytes from byte `i` on, if it is not past their end. -/
def after? (bs : List UInt8) (i : Nat) : Option (List UInt8) :=
  if i ≤ bs.length then some (bs.drop i) else none

/-! ## Scans -/

def char (b : UInt8) : Char := Char.ofNat b.toNat

/-- Whether a byte is that of an ASCII character with a property, if it is one of ASCII at all. -/
def is (p : Char → Bool) (b : UInt8) : Bool := p (char b)

/-- The first position from `i` on whose byte does not have a property. -/
def skipWhile (p : Char → Bool) (bs : List UInt8) (i : Nat) : Nat :=
  i + ((bs.drop i).takeWhile (is p)).length

def seek? (p : Char → Bool) (bs : List UInt8) : Option Nat := bs.findIdx? (is p)

def find? (needle t : Text) : Option Nat :=
  (Text.cut? needle t).map fun (before, _) => byteLength before

/-- Whether the bytes from `i` on start with an ASCII name, in any case. -/
def startsWithName (bs : List UInt8) (i : Nat) (name : Text) : Bool :=
  i + name.length ≤ bs.length &&
    ((bs.drop i).take name.length).map (fun b => (char b).toLower) = Ascii.lower name

/-! ## Bytes of ASCII -/

/-- Whether a property does not tell characters outside ASCII apart. -/
def AsciiOnly (p : Char → Bool) : Prop :=
  ∀ c d : Char, 128 ≤ c.toNat → 128 ≤ d.toNat → p c = p d

/-- Whether all characters of a text are ASCII. -/
def IsAscii (t : Text) : Prop := ∀ c ∈ t, c.toNat < 128

instance (t : Text) : Decidable (IsAscii t) := List.decidableBAll _ t

theorem asciiOnly_of_false {p : Char → Bool} (h : ∀ c : Char, 128 ≤ c.toNat → p c = false) :
    AsciiOnly p := by
  intro c d hc hd
  rw [h c hc, h d hd]

theorem asciiOnly_eq {a : Char} (ha : a.toNat < 128 := by decide) :
    AsciiOnly fun c => decide (c = a) := by
  refine asciiOnly_of_false fun c hc => decide_eq_false ?_
  rintro rfl
  omega

theorem AsciiOnly.not {p : Char → Bool} (h : AsciiOnly p) : AsciiOnly fun c => !p c :=
  fun c d hc hd => congrArg (!·) (h c d hc hd)

theorem AsciiOnly.or {p q : Char → Bool} (hp : AsciiOnly p) (hq : AsciiOnly q) :
    AsciiOnly fun c => p c || q c :=
  fun c d hc hd => congr (congrArg _ (hp c d hc hd)) (hq c d hc hd)

theorem AsciiOnly.and {p q : Char → Bool} (hp : AsciiOnly p) (hq : AsciiOnly q) :
    AsciiOnly fun c => p c && q c :=
  fun c d hc hd => congr (congrArg _ (hp c d hc hd)) (hq c d hc hd)

theorem isDigit_of_not_ascii {c : Char} (h : 128 ≤ c.toNat) : c.isDigit = false := by
  have hval : c.toNat = c.val.toNat := rfl
  change (decide (c.val ≥ '0'.val) && decide (c.val ≤ '9'.val)) = false
  rw [Bool.and_eq_false_iff, decide_eq_false_iff_not, decide_eq_false_iff_not,
    UInt32.le_iff_toNat_le]
  exact .inr (by rw [show '9'.val.toNat = 57 from rfl]; omega)

theorem isAlpha_of_not_ascii {c : Char} (h : 128 ≤ c.toNat) : c.isAlpha = false := by
  have hval : c.toNat = c.val.toNat := rfl
  change (c.isUpper || c.isLower) = false
  rw [Bool.or_eq_false_iff, ← Bool.not_eq_true, ← Bool.not_eq_true, Ascii.isUpper_iff,
    Ascii.isLower_iff]
  omega

theorem isAlphanum_of_not_ascii {c : Char} (h : 128 ≤ c.toNat) : c.isAlphanum = false := by
  change (c.isAlpha || c.isDigit) = false
  rw [isAlpha_of_not_ascii h, isDigit_of_not_ascii h]
  rfl

theorem isHexDigit_of_not_ascii {c : Char} (h : 128 ≤ c.toNat) : Ascii.isHexDigit c = false := by
  have hval : c.toNat = c.val.toNat := rfl
  have hle (a : Char) (ha : a.toNat < 128) : decide (c ≤ a) = false := by
    refine decide_eq_false fun hca => ?_
    have hle : c.val.toNat ≤ a.val.toNat := UInt32.le_iff_toNat_le.1 hca
    have haval : a.toNat = a.val.toNat := rfl
    omega
  rw [Ascii.isHexDigit, isDigit_of_not_ascii h, hle 'f' (by decide), hle 'F' (by decide),
    Bool.and_false, Bool.and_false]
  rfl

theorem toNat_char (b : UInt8) : (char b).toNat = b.toNat := by
  have hb := b.toNat_lt
  have hvalid : b.toNat.isValidChar := .inl (by omega)
  rw [char, Char.ofNat, dif_pos hvalid]
  rfl

/-- The byte of an ASCII character is its number; the bytes of any other are outside ASCII. -/
theorem char_of_mem {c : Char} {b : UInt8} (h : b ∈ String.utf8EncodeChar c) :
    char b = c ∨ 128 ≤ c.toNat ∧ 128 ≤ b.toNat := by
  have hc : c.toNat = c.val.toNat := rfl
  unfold String.utf8EncodeChar at h
  dsimp only at h
  split at h
  · next hle =>
    obtain rfl := List.mem_singleton.1 h
    left
    rw [char, UInt8.toNat_ofNat', Nat.mod_eq_of_lt (by omega)]
    exact Char.ofNat_toNat c
  · right
    refine ⟨by omega, ?_⟩
    split at h
    · simp only [List.mem_cons, List.not_mem_nil, or_false] at h
      rcases h with rfl | rfl
      all_goals rw [UInt8.toNat_ofNat']; omega
    · split at h
      · simp only [List.mem_cons, List.not_mem_nil, or_false] at h
        rcases h with rfl | rfl | rfl
        all_goals rw [UInt8.toNat_ofNat']; omega
      · simp only [List.mem_cons, List.not_mem_nil, or_false] at h
        rcases h with rfl | rfl | rfl | rfl
        all_goals rw [UInt8.toNat_ofNat']; omega

/-- **No byte inside a character looks like another one**, to a property that is about ASCII. -/
theorem is_of_mem {p : Char → Bool} (hp : AsciiOnly p) {c : Char} {b : UInt8}
    (h : b ∈ String.utf8EncodeChar c) : is p b = p c := by
  rcases char_of_mem h with hb | ⟨hc, hb⟩
  · rw [is, hb]
  · exact hp _ _ (by rwa [toNat_char]) hc

theorem utf8Size_of_ascii {c : Char} (h : c.toNat < 128) : c.utf8Size = 1 := by
  have hle : c.val ≤ 127 := by
    rw [UInt32.le_iff_toNat_le]
    exact Nat.le_of_lt_succ h
  rw [Char.utf8Size]
  exact if_pos hle

/-! ## Bytes of texts -/

theorem bytes_cons (c : Char) (t : Text) : bytes (c :: t) = String.utf8EncodeChar c ++ bytes t :=
  List.flatMap_cons

theorem bytes_append (s t : Text) : bytes (s ++ t) = bytes s ++ bytes t := List.flatMap_append

theorem length_bytes (t : Text) : (bytes t).length = byteLength t := by
  induction t with
  | nil => rfl
  | cons c t ih => rw [bytes_cons, List.length_append, String.length_utf8EncodeChar, ih]; rfl

theorem head?_bytes (c : Char) (t : Text) : ∃ b ∈ String.utf8EncodeChar c,
    (bytes (c :: t)).head? = some b := by
  have hlen : 0 < (String.utf8EncodeChar c).length := by
    rw [String.length_utf8EncodeChar]
    exact c.utf8Size_pos
  obtain ⟨b, bs, hb⟩ := List.exists_cons_of_length_pos hlen
  refine ⟨b, hb ▸ List.mem_cons_self, ?_⟩
  rw [bytes_cons, hb]
  rfl

variable {p : Char → Bool}

theorem takeWhile_bytes (hp : AsciiOnly p) (t : Text) :
    (bytes t).takeWhile (is p) = bytes (t.takeWhile p) := by
  induction t with
  | nil => rfl
  | cons c t ih =>
    have hc : ∀ b ∈ String.utf8EncodeChar c, is p b = p c := fun b => is_of_mem hp
    rw [bytes_cons]
    cases h : p c with
    | true =>
      rw [List.takeWhile_append_of_pos fun b hb => (hc b hb).trans h, ih,
        List.takeWhile_cons_of_pos h, bytes_cons]
    | false =>
      obtain ⟨b, hb, hhead⟩ := head?_bytes c t
      obtain ⟨bs, hbytes⟩ := List.head?_eq_some_iff.1 hhead
      rw [← bytes_cons, hbytes, List.takeWhile_cons_of_neg (by simp [hc b hb, h]),
        List.takeWhile_cons_of_neg (by simp [h])]
      rfl

theorem length_le_byteLength (t : Text) : t.length ≤ byteLength t := by
  induction t with
  | nil => exact Nat.le_refl _
  | cons c t ih =>
    have := c.utf8Size_pos
    rw [Text.byteLength_cons, List.length_cons]
    omega

theorem byteLength_of_ascii {u : Text} (h : IsAscii u) :
    byteLength u = u.length := by
  induction u with
  | nil => rfl
  | cons c u ih =>
    rw [Text.byteLength_cons, utf8Size_of_ascii (h c List.mem_cons_self),
      ih fun d hd => h d (List.mem_cons_of_mem c hd), List.length_cons, Nat.add_comm]

theorem isAscii_takeWhile {p : Char → Bool} (hp : ∀ c : Char, 128 ≤ c.toNat → p c = false)
    (u : Text) : IsAscii (u.takeWhile p) := by
  intro c hc
  refine Nat.lt_of_not_le fun hle => ?_
  have htrue : p c = true := Text.of_mem_takeWhile hc
  rw [hp c hle] at htrue
  cases htrue

theorem seek?_bytes (hp : AsciiOnly p) (t : Text) :
    seek? p (bytes t) = match t.dropWhile (fun c => !p c) with
      | [] => none
      | _ :: _ => some (byteLength (t.takeWhile fun c => !p c)) := by
  induction t with
  | nil => rfl
  | cons c t ih =>
    have hc : ∀ b ∈ String.utf8EncodeChar c, is p b = p c := fun b => is_of_mem hp
    cases h : p c with
    | true =>
      obtain ⟨b, hb, hhead⟩ := head?_bytes c t
      obtain ⟨bs, hbytes⟩ := List.head?_eq_some_iff.1 hhead
      rw [seek?, hbytes, List.findIdx?_cons, if_pos ((hc b hb).trans h),
        List.dropWhile_cons_of_neg (by simp [h]), List.takeWhile_cons_of_neg (by simp [h])]
      rfl
    | false =>
      have hnone : (String.utf8EncodeChar c).findIdx? (is p) = none :=
        List.findIdx?_eq_none_iff.2 fun b hb => by rw [hc b hb, h]
      rw [seek?, bytes_cons, List.findIdx?_append, hnone, Option.none_or, ← seek?, ih,
        List.dropWhile_cons_of_pos (by simp [h]), List.takeWhile_cons_of_pos (by simp [h])]
      split
      · rfl
      · rw [Option.map_some, String.length_utf8EncodeChar, Text.byteLength_cons, Nat.add_comm]

theorem not_decide_eq (a : Char) : (fun c => !decide (c = a)) = fun c => decide (c ≠ a) := by
  funext c
  rw [decide_not]

theorem seek?_char {a : Char} (ha : a.toNat < 128) (t : Text) :
    seek? (· = a) (bytes t) = match t.dropWhile (· ≠ a) with
      | [] => none
      | _ :: _ => some (byteLength (t.takeWhile (· ≠ a))) := by
  rw [seek?_bytes (asciiOnly_eq ha), not_decide_eq]

theorem le_skipWhile (p : Char → Bool) (bs : List UInt8) (i : Nat) : i ≤ skipWhile p bs i :=
  Nat.le_add_right _ _

theorem skipWhile_le (p : Char → Bool) {bs : List UInt8} {i : Nat} (h : i ≤ bs.length) :
    skipWhile p bs i ≤ bs.length := by
  have hle := (List.takeWhile_sublist (l := bs.drop i) (is p)).length_le
  rw [List.length_drop] at hle
  rw [skipWhile]
  omega

/-! ## Standing at a text -/

/-- Whether the text after a position is `u`. -/
def At (t : Text) (i : Nat) (u : Text) : Prop := ∃ s, t = s ++ u ∧ i = byteLength s

namespace At

variable {t u v : Text} {c : Char} {i : Nat}

theorem start (t : Text) : At t 0 t := ⟨[], rfl, rfl⟩

theorem append (h : At t i (v ++ u)) : At t (i + byteLength v) u := by
  obtain ⟨s, rfl, rfl⟩ := h
  exact ⟨s ++ v, (List.append_assoc s v u).symm, (Text.byteLength_append s v).symm⟩

theorem split (p : Char → Bool) (h : At t i u) : At t i (u.takeWhile p ++ u.dropWhile p) := by
  rwa [List.takeWhile_append_dropWhile]

theorem tail (h : At t i (c :: u)) : At t (i + c.utf8Size) u := append (v := [c]) h

theorem tail_ascii (h : At t i (c :: u)) (hc : c.toNat < 128 := by decide) : At t (i + 1) u := by
  rw [← utf8Size_of_ascii hc]
  exact h.tail

theorem length (h : At t i u) : (bytes t).length = i + byteLength u := by
  obtain ⟨s, rfl, rfl⟩ := h
  rw [length_bytes, Text.byteLength_append]

theorem drop (h : At t i u) : (bytes t).drop i = bytes u := by
  obtain ⟨s, rfl, rfl⟩ := h
  rw [bytes_append, ← length_bytes s, List.drop_left]

theorem lt_of_length_lt {j : Nat} (h : At t i u) (hv : At t j v) (hlt : v.length < u.length) :
    i < j := by
  obtain ⟨s, rfl, rfl⟩ := h
  obtain ⟨r, hr, rfl⟩ := hv
  rcases List.append_eq_append_iff.1 hr with ⟨w, rfl, rfl⟩ | ⟨w, rfl, rfl⟩
  · rw [Text.byteLength_append]
    cases w with
    | nil => exact absurd hlt (Nat.lt_irrefl _)
    | cons c w =>
      have := c.utf8Size_pos
      rw [Text.byteLength_cons]
      omega
  · rw [List.length_append] at hlt
    omega

theorem from? (h : At t i u) : from? t i = some u := by
  obtain ⟨s, rfl, rfl⟩ := h
  exact Text.dropBytes?_append s u

example : Bytes.from? ['é', 'a'] 1 = none ∧ Bytes.from? ['é', 'a'] 2 = some ['a'] := by decide

theorem range? (h : At t i (v ++ u)) : range? t i (i + byteLength v) = some v := by
  obtain ⟨s, rfl, rfl⟩ := h
  rw [Bytes.range?, if_pos (Nat.le_add_right _ _), Nat.add_sub_cancel_left, ← List.append_assoc]
  exact Text.slice?_append s v u

theorem after? (h : At t i u) : after? (bytes t) i = some (bytes u) := by
  have hlen := h.length
  rw [Bytes.after?, if_pos (by omega), h.drop]

theorem get?_nil (h : At t i []) : (bytes t)[i]? = none := by
  have hlen := h.length
  exact List.getElem?_eq_none (by rw [Text.byteLength_nil] at hlen; omega)

theorem get?_cons (h : At t i (c :: u)) : ∃ b, (bytes t)[i]? = some b ∧
    ∀ p, AsciiOnly p → is p b = p c := by
  obtain ⟨b, hb, hhead⟩ := head?_bytes c u
  refine ⟨b, ?_, fun p hp => is_of_mem hp hb⟩
  have hdrop : ((bytes t).drop i)[0]? = (bytes t)[i + 0]? := List.getElem?_drop
  rw [h.drop, ← List.head?_eq_getElem?, hhead] at hdrop
  exact hdrop.symm

theorem any_get? (hp : AsciiOnly p) (h : At t i u) :
    ((bytes t)[i]?).any (is p) = u.head?.any p := by
  cases u with
  | nil =>
    rw [h.get?_nil]
    rfl
  | cons c u =>
    obtain ⟨b, hb, hc⟩ := h.get?_cons
    rw [hb]
    exact hc p hp

theorem all_get? (hp : AsciiOnly p) (h : At t i u) :
    ((bytes t)[i]?).all (is p) = u.head?.all p := by
  cases u with
  | nil =>
    rw [h.get?_nil]
    rfl
  | cons c u =>
    obtain ⟨b, hb, hc⟩ := h.get?_cons
    rw [hb]
    exact hc p hp

theorem eof (t : Text) : At t (bytes t).length [] := ⟨t, (List.append_nil t).symm, length_bytes t⟩

/-- Looking for an ASCII character: it is found after the characters that are not it, or the text
ends first. -/
theorem seek {a : Char} (h : At t i u) (ha : a.toNat < 128 := by decide) :
    (u.dropWhile (· ≠ a) = [] ∧ u.takeWhile (· ≠ a) = u ∧ seek? (· = a) (bytes u) = none) ∨
      ∃ rest, u.dropWhile (· ≠ a) = a :: rest ∧
        seek? (· = a) (bytes u) = some (byteLength (u.takeWhile (· ≠ a))) ∧
          At t i (u.takeWhile (· ≠ a) ++ a :: rest) ∧
            At t (i + byteLength (u.takeWhile (· ≠ a)) + 1) rest := by
  have hsplit := h.split (· ≠ a)
  have happend : u.takeWhile (· ≠ a) ++ u.dropWhile (· ≠ a) = u := List.takeWhile_append_dropWhile
  rw [seek?_char ha]
  cases hrest : u.dropWhile (· ≠ a) with
  | nil =>
    rw [hrest, List.append_nil] at happend
    exact .inl ⟨rfl, happend, rfl⟩
  | cons d rest =>
    have hd : d = a := by
      have hhead := List.head?_dropWhile_not (p := (· ≠ a)) u
      rw [hrest] at hhead
      simpa using hhead
    subst hd
    rw [hrest] at hsplit
    exact .inr ⟨rest, rfl, rfl, hsplit, hsplit.append.tail_ascii ha⟩

theorem skipWhile (hp : AsciiOnly p) (h : At t i u) :
    skipWhile p (bytes t) i = i + byteLength (u.takeWhile p) := by
  rw [Bytes.skipWhile, h.drop, takeWhile_bytes hp, length_bytes]

theorem dropWhile (h : At t i u) : At t (i + byteLength (u.takeWhile p)) (u.dropWhile p) :=
  (h.split p).append

/-- One past the first byte of a character, a scan passes the bytes that are left of it. -/
theorem skipWhile_succ (hp : AsciiOnly p) (hc : c.toNat < 128 ∨ p c = true) (h : At t i (c :: u)) :
    Bytes.skipWhile p (bytes t) (i + 1) = i + byteLength (c :: u.takeWhile p) := by
  have hsize := String.length_utf8EncodeChar c
  have hpos := c.utf8Size_pos
  have hdrop : (bytes t).drop (i + 1) = (String.utf8EncodeChar c).drop 1 ++ bytes u := by
    rw [← List.drop_drop, h.drop, bytes_cons, List.drop_append_of_le_length (by omega)]
  have hrest : ∀ b ∈ (String.utf8EncodeChar c).drop 1, is p b = true := by
    intro b hb
    rcases hc with hc | hc
    · have hone := utf8Size_of_ascii hc
      rw [List.drop_eq_nil_of_le (by omega)] at hb
      cases hb
    · rw [is_of_mem hp (List.mem_of_mem_drop hb), hc]
  rw [Bytes.skipWhile, hdrop, List.takeWhile_append_of_pos hrest, List.length_append,
    takeWhile_bytes hp, length_bytes, List.length_drop, Text.byteLength_cons]
  omega

theorem get?_within (h : At t i (c :: u)) {k : Nat} (hk : k < c.utf8Size) :
    ∃ b ∈ String.utf8EncodeChar c, (bytes t)[i + k]? = some b := by
  rw [← String.length_utf8EncodeChar] at hk
  refine ⟨(String.utf8EncodeChar c)[k], List.getElem_mem hk, ?_⟩
  rw [← List.getElem?_drop, h.drop, bytes_cons, List.getElem?_append_left hk]
  exact List.getElem?_eq_getElem hk

/-- A loop that passes every byte without a property passes a character without it. -/
theorem pass {α : Type} {f : Nat → α} (hp : AsciiOnly p) (hc : p c = false) (h : At t i (c :: u))
    (hf : ∀ j b, (bytes t)[j]? = some b → is p b = false → f j = f (j + 1)) :
    f i = f (i + c.utf8Size) := by
  have hpass (k : Nat) (hk : k ≤ c.utf8Size) : f i = f (i + k) := by
    induction k with
    | zero => rfl
    | succ k ih =>
      obtain ⟨b, hb, hget⟩ := h.get?_within hk
      rw [ih (Nat.le_of_lt hk), hf _ b hget ((is_of_mem hp hb).trans hc)]
      rfl
  exact hpass _ (Nat.le_refl _)

end At

/-! ## Reading -/

section

variable {α : Type} (t : Text)

/-- Whether a reader of bytes stops where a reader of characters does, with the same result, if they
read anything. -/
inductive Agrees : Option (α × Nat) → Option (α × Text) → Prop where
  | none : Agrees none none
  | some {a : α} {i : Nat} {u : Text} (h : At t i u) : Agrees (some (a, i)) (some (a, u))

/-- Whether a reader of bytes never fails, and agrees with one of characters. -/
def Reads (x : Option (Option (α × Nat))) (y : Option (α × Text)) : Prop :=
  ∃ r, x = some r ∧ Agrees t r y

/-- Whether a reader of bytes that always reads something never fails, and agrees with one of
characters. -/
def Stands (x : Option (α × Nat)) (y : α × Text) : Prop := ∃ i, x = some (y.1, i) ∧ At t i y.2

end

/-! ## Names -/

theorem toLower_of_not_ascii {c : Char} (h : 128 ≤ c.toNat) : c.toLower = c := by
  refine Ascii.toLower_eq_self ?_
  rw [← Bool.not_eq_true, Ascii.isUpper_iff]
  have hval : c.toNat = c.val.toNat := rfl
  omega

theorem toLower_lt {a : Char} (ha : a.toNat < 128) : a.toLower.toNat < 128 := by
  cases h : a.isUpper with
  | false => rwa [Ascii.toLower_eq_self h]
  | true =>
    have hlower := Ascii.isLower_iff.1 (Ascii.isLower_toLower h)
    have hval : a.toLower.toNat = a.toLower.val.toNat := rfl
    omega

theorem asciiOnly_sameLetter {a : Char} (ha : a.toNat < 128) :
    AsciiOnly fun c => decide (a.toLower = c.toLower) := by
  refine asciiOnly_of_false fun c hc => decide_eq_false ?_
  intro he
  have hlt := toLower_lt ha
  rw [he, toLower_of_not_ascii hc] at hlt
  omega

theorem utf8EncodeChar_of_ascii {c : Char} (h : c.toNat < 128) {b : UInt8}
    (hb : b ∈ String.utf8EncodeChar c) : String.utf8EncodeChar c = [b] := by
  have hlen := String.length_utf8EncodeChar c
  rw [utf8Size_of_ascii h] at hlen
  obtain ⟨d, hd⟩ := List.length_eq_one_iff.1 hlen
  rw [hd] at hb ⊢
  rw [List.mem_singleton.1 hb]

theorem lower_isPrefix_bytes {name : Text} (hname : IsAscii name) (u : Text) :
    Ascii.lower name <+: (bytes u).map (fun b => (char b).toLower) ↔
      Ascii.lower name <+: Ascii.lower u := by
  induction name generalizing u with
  | nil => exact ⟨fun _ => List.nil_prefix, fun _ => List.nil_prefix⟩
  | cons a as ih =>
    have ha := hname a List.mem_cons_self
    cases u with
    | nil => rfl
    | cons c u =>
      obtain ⟨b, hb, hhead⟩ := head?_bytes c u
      obtain ⟨bs, hbytes⟩ := List.head?_eq_some_iff.1 hhead
      have hsame : a.toLower = (char b).toLower ↔ a.toLower = c.toLower := by
        simpa [is] using is_of_mem (asciiOnly_sameLetter ha) hb
      rw [hbytes, List.map_cons, Ascii.lower_cons, Ascii.lower_cons, List.cons_prefix_cons,
        List.cons_prefix_cons, hsame]
      refine and_congr_right fun he => ?_
      have hc : c.toNat < 128 := by
        refine Nat.lt_of_not_le fun hc => ?_
        have hlt := toLower_lt ha
        rw [he, toLower_of_not_ascii hc] at hlt
        omega
      obtain rfl : bytes u = bs := by
        rw [bytes_cons, utf8EncodeChar_of_ascii hc hb] at hbytes
        exact (List.cons.inj hbytes).2
      exact ih (fun d hd => hname d (List.mem_cons_of_mem a hd)) u

theorem stripName?_isSome (name u : Text) :
    (Ascii.stripName? name u).isSome = true ↔ Ascii.lower name <+: Ascii.lower u := by
  have htake : (Ascii.lower u).take (Ascii.lower name).length =
      Ascii.lower (u.take name.length) := by
    rw [Ascii.lower, Ascii.lower, Ascii.lower, List.length_map, List.map_take]
  rw [List.prefix_iff_eq_take, htake]
  unfold Ascii.stripName?
  split
  · next hlt =>
    refine ⟨fun h => absurd h Bool.false_ne_true, fun h => ?_⟩
    have hlen := congrArg List.length h
    rw [Ascii.lower, Ascii.lower, List.length_map, List.length_map, List.length_take] at hlen
    omega
  · split
    · next hsame => exact ⟨fun _ => (of_decide_eq_true hsame).symm, fun _ => rfl⟩
    · next hsame =>
      exact ⟨fun h => absurd h Bool.false_ne_true, fun h => absurd (decide_eq_true h.symm) hsame⟩

theorem At.startsWithName {t u : Text} {i : Nat} (h : At t i u) {name : Text}
    (hname : IsAscii name) :
    startsWithName (bytes t) i name = (Ascii.stripName? name u).isSome := by
  have hlen := h.length
  have hprefix := lower_isPrefix_bytes hname u
  rw [Bool.eq_iff_iff, stripName?_isSome, ← hprefix, Bytes.startsWithName, h.drop, Bool.and_eq_true,
    decide_eq_true_iff, decide_eq_true_iff, List.prefix_iff_eq_take, List.map_take]
  have hlower : (Ascii.lower name).length = name.length := List.length_map _
  rw [hlower]
  refine ⟨fun ⟨_, he⟩ => he.symm, fun he => ⟨?_, he.symm⟩⟩
  have hle := congrArg List.length he
  rw [hlower, List.length_take, List.length_map, length_bytes] at hle
  omega

end Bytes

end Stencil
