import Stencil.Proofs.Bytes.Reference
import Stencil.Proofs.Html.Body

/-!
# Tags by bytes

The inside of a tag read at positions of a text. The name of an attribute is scanned from one past
its first byte on, which falls inside the character if that is not one byte long; the scan passes
what is left of it, since no byte there ends a name (`At.skipWhile_succ`).
-/

namespace Stencil.Bytes

open Text (bytes byteLength)
open Html

theorem asciiOnly_isBlank : AsciiOnly Ascii.isBlank :=
  .or (.or (.or (.or asciiOnly_eq asciiOnly_eq) asciiOnly_eq) asciiOnly_eq) asciiOnly_eq

theorem asciiOnly_endsName : AsciiOnly Tag.endsName :=
  .or (.or asciiOnly_isBlank asciiOnly_eq) asciiOnly_eq

theorem asciiOnly_inAttributeName : AsciiOnly Tag.inAttributeName := by
  have hequals : AsciiOnly fun c => !decide (c = '=') := AsciiOnly.not asciiOnly_eq
  rw [not_decide_eq] at hequals
  exact asciiOnly_endsName.not.and hequals

theorem ascii_of_endsName {c : Char} (h : Tag.endsName c = true) : c.toNat < 128 := by
  refine Nat.lt_of_not_le fun hc => ?_
  rw [asciiOnly_endsName c '\u0080' hc (by decide)] at h
  exact absurd h (by decide)

/-! ## Values -/

/-- Reads a value up to its closing quote, from position `i` on. -/
def quotedAt? (quote : Char) (t : Text) (i : Nat) : Option (Option (Text × Nat)) :=
  match after? (bytes t) i with
  | none => none
  | some rest =>
    match seek? (· = quote) rest with
    | none => some none
    | some n => (range? t i (i + n)).map fun value => some (value, i + n + 1)

/-- Where an unquoted value ends that goes on with the bytes from position `k` on. -/
def unquotedEnd : List UInt8 → Nat → Nat
  | [], k => k
  | b :: bs, k =>
    if is Ascii.isBlank b || is (· = '>') b ||
        (is (· = '/') b && bs.head?.any (is (· = '>'))) then k
    else unquotedEnd bs (k + 1)

/-- Reads the value of an attribute after its equals sign. -/
def valueAfterEqualsAt? (t : Text) (i : Nat) : Option (Option (Text × Nat)) :=
  let k := skipWhile Ascii.isBlank (bytes t) i
  if ((bytes t)[k]?).any (is (· = '"')) then quotedAt? '"' t (k + 1)
  else if ((bytes t)[k]?).any (is (· = '\x27')) then quotedAt? '\x27' t (k + 1)
  else
    let e := unquotedEnd ((bytes t).drop k) k
    (range? t k e).map fun value => some (value, e)

/-- Reads the rest of an attribute after its name. -/
def valueAt? (t : Text) (i : Nat) : Option (Option (Option Text × Nat)) :=
  let k := skipWhile Ascii.isBlank (bytes t) i
  if ((bytes t)[k]?).any (is (· = '=')) then
    match valueAfterEqualsAt? t (k + 1) with
    | none => none
    | some none => some none
    | some (some (value, j)) => (decode? value).map fun value => some (some value, j)
  else some (some (none, k))

section

variable {t u : Text} {i : Nat}

theorem reads_quotedAt? {quote : Char} (hquote : quote.toNat < 128) (h : At t i u) :
    Reads t (quotedAt? quote t i) (Tag.quoted? quote u) := by
  rw [quotedAt?, h.after?]
  unfold Tag.quoted?
  dsimp only
  rcases h.seek hquote with ⟨hrest, -, hseek⟩ | ⟨rest, hrest, hseek, hat, hnext⟩
  · rw [hseek, hrest]
    exact ⟨none, rfl, .none⟩
  · rw [hseek, hrest]
    dsimp only
    rw [hat.range?, Option.map_some]
    exact ⟨_, rfl, .some hnext⟩

theorem unquotedEnd_pass {bs : List UInt8} (h : ∀ b ∈ bs, is Tag.endsName b = false)
    (rest : List UInt8) (k : Nat) :
    unquotedEnd (bs ++ rest) k = unquotedEnd rest (k + bs.length) := by
  induction bs generalizing k with
  | nil => rfl
  | cons b bs ih =>
    have hb := h b List.mem_cons_self
    rw [is, Tag.endsName, Bool.or_eq_false_iff, Bool.or_eq_false_iff] at hb
    rw [List.cons_append, unquotedEnd, if_neg (by simp [is, hb]),
      ih (fun d hd => h d (List.mem_cons_of_mem b hd)), List.length_cons, Nat.add_assoc,
      Nat.add_comm 1]

theorem unquotedEnd_bytes (u : Text) (k : Nat) :
    unquotedEnd (bytes u) k = k + byteLength (Tag.unquoted u).1 := by
  have hbracket : AsciiOnly fun c => decide (c = '>') := asciiOnly_eq
  have hslash : AsciiOnly fun c => decide (c = '/') := asciiOnly_eq
  induction u generalizing k with
  | nil => rfl
  | cons c u ih =>
    cases hc : Tag.endsName c with
    | false =>
      have hpass := unquotedEnd_pass (fun b hb => (is_of_mem asciiOnly_endsName hb).trans hc)
        (bytes u) k
      rw [Tag.endsName, Bool.or_eq_false_iff, Bool.or_eq_false_iff] at hc
      rw [bytes_cons, hpass, ih, Tag.unquoted, if_neg (by simp [hc]), String.length_utf8EncodeChar,
        Text.byteLength_cons, Nat.add_assoc]
    | true =>
      have hascii := ascii_of_endsName hc
      obtain ⟨b, hb, -⟩ := head?_bytes c u
      have his (p : Char → Bool) (hp : AsciiOnly p) : is p b = p c := is_of_mem hp hb
      have hnext : (bytes u).head?.any (is (· = '>')) = decide (u.head? = some '>') := by
        cases u with
        | nil => rfl
        | cons d u =>
          obtain ⟨b', hb', hhead⟩ := head?_bytes d u
          rw [hhead, Option.any_some, is_of_mem hbracket hb']
          simp
      rw [bytes_cons, utf8EncodeChar_of_ascii hascii hb, List.singleton_append, unquotedEnd,
        his _ asciiOnly_isBlank, his _ hbracket, his _ hslash, hnext, Tag.unquoted]
      split
      · rfl
      · rw [ih, Text.byteLength_cons, utf8Size_of_ascii hascii, Nat.add_assoc]

theorem At.unquoted (h : At t i u) : At t i ((Tag.unquoted u).1 ++ (Tag.unquoted u).2) := by
  have happend (v : Text) : (Tag.unquoted v).1 ++ (Tag.unquoted v).2 = v := by
    induction v with
    | nil => rfl
    | cons c v ih =>
      unfold Tag.unquoted
      split
      · rfl
      · exact congrArg (c :: ·) ih
  rwa [happend]

theorem reads_valueAfterEqualsAt? (h : At t i u) :
    Reads t (valueAfterEqualsAt? t i) (Tag.valueAfterEquals? u) := by
  have hat : At t _ _ := h.dropWhile (p := Ascii.isBlank)
  have hdouble : AsciiOnly fun c => decide (c = '"') := asciiOnly_eq
  have hsingle : AsciiOnly fun c => decide (c = '\x27') := asciiOnly_eq
  unfold valueAfterEqualsAt? Tag.valueAfterEquals?
  dsimp only
  rw [h.skipWhile asciiOnly_isBlank, hat.any_get? hdouble, hat.any_get? hsingle]
  generalize i + byteLength (u.takeWhile Ascii.isBlank) = k at *
  generalize u.dropWhile Ascii.isBlank = v at *
  have hunquoted : Reads t ((range? t k (unquotedEnd ((bytes t).drop k) k)).map fun value =>
      some (value, unquotedEnd ((bytes t).drop k) k)) (some (Tag.unquoted v)) := by
    rw [hat.drop, unquotedEnd_bytes, hat.unquoted.range?, Option.map_some]
    exact ⟨_, rfl, .some hat.unquoted.append⟩
  cases v with
  | nil => exact hunquoted
  | cons c w =>
    by_cases hc : c = '"'
    · subst hc
      exact reads_quotedAt? (by decide) hat.tail_ascii
    · by_cases hc' : c = '\x27'
      · subst hc'
        exact reads_quotedAt? (by decide) hat.tail_ascii
      · rw [if_neg (by simp [hc]), if_neg (by simp [hc'])]
        split
        · next he => exact absurd (List.cons.inj he).1 hc
        · next he => exact absurd (List.cons.inj he).1 hc'
        · exact hunquoted

theorem reads_valueAt? (h : At t i u) : Reads t (valueAt? t i) (Tag.value? u) := by
  have hat : At t _ _ := h.dropWhile (p := Ascii.isBlank)
  have hequals : AsciiOnly fun c => decide (c = '=') := asciiOnly_eq
  unfold valueAt? Tag.value?
  dsimp only
  rw [h.skipWhile asciiOnly_isBlank, hat.any_get? hequals]
  generalize i + byteLength (u.takeWhile Ascii.isBlank) = k at *
  generalize u.dropWhile Ascii.isBlank = v at *
  cases v with
  | nil => exact ⟨_, rfl, .some hat⟩
  | cons c w =>
    by_cases hc : c = '='
    · subst hc
      obtain ⟨r, hr, hagrees⟩ := reads_valueAfterEqualsAt? hat.tail_ascii
      rw [if_pos (show (('=' :: w).head?.any fun c => decide (c = '=')) = true from rfl), hr]
      change Reads t _ (Option.map _ (Tag.valueAfterEquals? w))
      generalize Tag.valueAfterEquals? w = y at *
      cases hagrees with
      | none => exact ⟨none, rfl, .none⟩
      | some hend =>
        dsimp only
        rw [decode?_eq]
        exact ⟨_, rfl, .some hend⟩
    · rw [if_neg (by simp [hc])]
      split
      · next he => exact absurd (List.cons.inj he).1 hc
      · exact ⟨_, rfl, .some hat⟩

end

/-! ## Attributes -/

/-- Reads the attribute whose name starts at position `k`. -/
def attributeAt? (t : Text) (k : Nat) : Option (Option (WrittenAttribute × Nat)) :=
  let e := skipWhile Tag.inAttributeName (bytes t) (k + 1)
  match range? t k e with
  | none => none
  | some name =>
    match valueAt? t e with
    | none => none
    | some none => some none
    | some (some (value, j)) => some (some ((Ascii.lower name, value), j))

/-- Reads attributes up to the end of the tag, after those found before, from position `i` on. An
attribute that ends where it starts would be read forever; it counts as a failure. -/
def attributesFrom? (t : Text) (i : Nat) (found : List WrittenAttribute) :
    Option (Option ((List WrittenAttribute × Bool) × Nat)) :=
  let k := skipWhile Ascii.isBlank (bytes t) i
  match h : (bytes t)[k]? with
  | none => some none
  | some b =>
    have : i ≤ k := le_skipWhile _ _ _
    have : k < (bytes t).length := (List.getElem?_eq_some_iff.1 h).1
    if is (· = '>') b then some (some ((found, false), k + 1))
    else if is (· = '/') b then
      if ((bytes t)[k + 1]?).any (is (· = '>')) then some (some ((found, true), k + 2))
      else attributesFrom? t (k + 1) found
    else
      match attributeAt? t k with
      | none => none
      | some none => some none
      | some (some (a, j)) =>
        if k < j then attributesFrom? t j (Tag.addNew found a) else none
termination_by (bytes t).length - i
decreasing_by all_goals omega

section

variable {t u : Text} {i : Nat}

theorem reads_attributeAt? {c : Char} (hc : Tag.endsName c = false) (h : At t i (c :: u)) :
    Reads t (attributeAt? t i) (Tag.attribute? c u) := by
  have hpass : c.toNat < 128 ∨ Tag.inAttributeName c = true := by
    by_cases hequals : c = '='
    · subst hequals
      exact .inl (by decide)
    · exact .inr (by simp [Tag.inAttributeName, hc, hequals])
  have hsplit : At t i
      (c :: u.takeWhile Tag.inAttributeName ++ u.dropWhile Tag.inAttributeName) := by
    rwa [List.cons_append, List.takeWhile_append_dropWhile]
  obtain ⟨r, hr, hagrees⟩ := reads_valueAt? hsplit.append
  unfold attributeAt? Tag.attribute?
  dsimp only
  rw [h.skipWhile_succ asciiOnly_inAttributeName hpass, hsplit.range?]
  dsimp only
  rw [hr]
  generalize Tag.value? (u.dropWhile Tag.inAttributeName) = y at *
  cases hagrees with
  | none => exact ⟨none, rfl, .none⟩
  | some hend => exact ⟨_, rfl, .some hend⟩

theorem attributesFrom?_nil (h : At t i u) (hu : u.dropWhile Ascii.isBlank = [])
    (found : List WrittenAttribute) : attributesFrom? t i found = some none := by
  have hat : At t _ _ := h.dropWhile (p := Ascii.isBlank)
  rw [hu, ← h.skipWhile asciiOnly_isBlank] at hat
  rw [attributesFrom?]
  dsimp only
  split
  · rfl
  · next hget =>
    rw [hat.get?_nil] at hget
    cases hget

theorem attributesFrom?_cons {k : Nat} {c : Char} {cs : Text} (hk : At t k (c :: cs))
    (hi : skipWhile Ascii.isBlank (bytes t) i = k) (found : List WrittenAttribute) :
    attributesFrom? t i found =
      if c = '>' then some (some ((found, false), k + 1))
      else if c = '/' then
        if ((bytes t)[k + 1]?).any (is (· = '>')) then some (some ((found, true), k + 2))
        else attributesFrom? t (k + 1) found
      else (attributeAt? t k).bind fun r => match r with
        | none => some none
        | some (a, j) => if k < j then attributesFrom? t j (Tag.addNew found a) else none := by
  have hbracket : AsciiOnly fun c => decide (c = '>') := asciiOnly_eq
  have hslash : AsciiOnly fun c => decide (c = '/') := asciiOnly_eq
  obtain ⟨b, hb, his⟩ := hk.get?_cons
  subst hi
  rw [attributesFrom?]
  dsimp only
  split
  · next hget =>
    rw [hget] at hb
    cases hb
  · next b' hget =>
    obtain rfl : b = b' := Option.some.inj (hb.symm.trans hget)
    simp only [his _ hbracket, his _ hslash, decide_eq_true_iff]
    split
    · rfl
    · split
      · rfl
      · cases attributeAt? t (skipWhile Ascii.isBlank (bytes t) i) with
        | none => rfl
        | some r => cases r <;> rfl

/-- **Attributes are read by bytes as by characters.** -/
theorem reads_attributesFrom? (h : At t i u) (found : List WrittenAttribute) :
    Reads t (attributesFrom? t i found)
      ((Tag.attributes? found u).map fun (as, slash, rest) => ((as, slash), rest)) := by
  have hbracket : AsciiOnly fun c => decide (c = '>') := asciiOnly_eq
  induction hn : u.length using Nat.strongRecOn generalizing i u found with
  | ind n ih =>
    subst hn
    have hat : At t _ _ := h.dropWhile (p := Ascii.isBlank)
    have hle := (List.dropWhile_suffix (l := u) Ascii.isBlank).length_le
    have hblank := List.head?_dropWhile_not (p := Ascii.isBlank) u
    rw [← h.skipWhile asciiOnly_isBlank] at hat
    cases hd : u.dropWhile Ascii.isBlank with
    | nil =>
      rw [attributesFrom?_nil h hd, Tag.attributes?_nil hd]
      exact ⟨none, rfl, .none⟩
    | cons c cs =>
      rw [hd] at hat hblank
      rw [hd, List.length_cons] at hle
      rw [attributesFrom?_cons hat rfl, Tag.attributes?_cons hd]
      generalize skipWhile Ascii.isBlank (bytes t) i = k at *
      by_cases hc : c = '>'
      · subst hc
        exact ⟨_, rfl, .some hat.tail_ascii⟩
      · by_cases hc' : c = '/'
        · subst hc'
          have hnext := hat.tail_ascii
          rw [if_neg hc, if_pos rfl, if_neg hc, if_pos rfl, hnext.any_get? hbracket]
          by_cases hclosed : cs.head? = some '>'
          · obtain ⟨rest, rfl⟩ := List.head?_eq_some_iff.1 hclosed
            exact ⟨_, rfl, .some hnext.tail_ascii⟩
          · have hopen : (cs.head?.any fun c => decide (c = '>')) = false := by
              cases cs with
              | nil => rfl
              | cons d cs => exact decide_eq_false fun hd => hclosed (by rw [hd]; rfl)
            rw [hopen, if_neg Bool.false_ne_true, if_neg hclosed]
            exact ih cs.length (by omega) hnext found rfl
        · have hname : Tag.endsName c = false := by
            rw [List.head?_cons] at hblank
            simpa [Tag.endsName, hc, hc'] using hblank
          obtain ⟨r, hr, hagrees⟩ := reads_attributeAt? hname hat
          rw [if_neg hc, if_neg hc', if_neg hc, if_neg hc', hr, Option.bind_some]
          generalize ha : Tag.attribute? c cs = y at *
          cases hagrees with
          | none => exact ⟨none, rfl, .none⟩
          | @some a j rest hend =>
            have hshort := Tag.length_of_attribute? ha
            have hmoves := hat.lt_of_length_lt hend (by rw [List.length_cons]; omega)
            rw [Option.bind_some]
            dsimp only
            rw [if_pos hmoves]
            exact ih rest.length (by omega) hend _ rfl

end

/-! ## Close tags -/

/-- The position after the next closing bracket, or that of the end if there is none. -/
def afterBracketAt? (bs : List UInt8) (i : Nat) : Option Nat :=
  (after? bs i).map fun rest =>
    match seek? (· = '>') rest with
    | none => bs.length
    | some n => i + n + 1

/-- Looks for the close tag of `name` from position `i` on: where it starts, and where it ends. -/
def closeTagFrom? (name : Text) (bs : List UInt8) (i : Nat) : Option (Option (Nat × Nat)) :=
  if i + (byteLength name + 2) ≤ bs.length then
    match after? bs i with
    | none => none
    | some rest =>
      match seek? (· = '<') rest with
      | none => some none
      | some k =>
        if bs.length < i + k + (byteLength name + 2) then some none
        else
          match bs[i + k + 1]? with
          | none => none
          | some b =>
            if is (· = '/') b && startsWithName bs (i + k + 2) name &&
                (bs[i + k + (byteLength name + 2)]?).all (is Tag.endsName) then
              (afterBracketAt? bs (i + k + (byteLength name + 2))).map fun e => some (i + k, e)
            else closeTagFrom? name bs (i + k + 1)
  else some none
termination_by bs.length - i
decreasing_by omega

section

variable {t u name : Text} {i : Nat}

theorem At.afterBracket (h : At t i u) :
    ∃ j, afterBracketAt? (bytes t) i = some j ∧ At t j (Tag.afterBracket u) := by
  rw [afterBracketAt?, h.after?, Tag.afterBracket, Option.map_some]
  rcases h.seek (a := '>') with ⟨hrest, -, hseek⟩ | ⟨rest, hrest, hseek, -, hnext⟩
  · rw [hseek, hrest]
    exact ⟨_, rfl, At.eof t⟩
  · rw [hseek, hrest]
    exact ⟨_, rfl, hnext⟩

/-- After a name in any case, the position is that many bytes on: the characters are ASCII. -/
theorem At.stripName? (hname : IsAscii name) (h : At t i u) {rest : Text}
    (hstrip : Ascii.stripName? name u = some rest) : At t (i + byteLength name) rest := by
  obtain ⟨written, rfl, hw⟩ := Tag.eq_of_stripName? hstrip
  have hlower : Ascii.lower written = Ascii.lower name := of_decide_eq_true hw
  have hascii : IsAscii written := by
    intro c hc
    have hmem : c.toLower ∈ Ascii.lower name := hlower ▸ List.mem_map_of_mem hc
    obtain ⟨a, ha, he⟩ := List.mem_map.1 hmem
    refine Nat.lt_of_not_le fun hle => ?_
    have hlt := toLower_lt (hname a ha)
    rw [he, toLower_of_not_ascii hle] at hlt
    omega
  have hlen : byteLength written = byteLength name := by
    rw [byteLength_of_ascii hascii, byteLength_of_ascii hname, Tag.length_of_sameName hw]
  rw [← hlen]
  exact h.append

theorem length_le_of_cutCloseTag? {before after : Text}
    (h : Tag.cutCloseTag? name u = some (before, after)) : name.length + 2 ≤ u.length := by
  induction u generalizing before after with
  | nil => cases h
  | cons c cs ih =>
    rw [List.length_cons]
    unfold Tag.cutCloseTag? at h
    split at h
    · next hclose =>
      split at hclose
      · obtain ⟨written, rest, rfl, hw, -⟩ := Tag.eq_of_closeTag? hclose
        rw [List.length_cons, List.length_append, Tag.length_of_sameName hw]
        omega
      · cases hclose
    · obtain ⟨⟨b, a⟩, hb, -⟩ := Option.map_eq_some_iff.1 h
      have := ih hb
      omega

/-- No close tag is found where its bytes do not fit. -/
theorem cutCloseTag?_of_short (hname : IsAscii name)
    (h : byteLength u < byteLength name + 2) : Tag.cutCloseTag? name u = none := by
  cases hcut : Tag.cutCloseTag? name u with
  | none => rfl
  | some p =>
    have hle := length_le_of_cutCloseTag? (show _ = some (p.1, p.2) from hcut)
    have := length_le_byteLength u
    rw [byteLength_of_ascii hname] at h
    omega

/-- A close tag is looked for after what holds no opening bracket. -/
theorem cutCloseTag?_run (name : Text) {v : Text} (hv : '<' ∉ v) (u : Text) :
    Tag.cutCloseTag? name (v ++ u) =
      (Tag.cutCloseTag? name u).map fun (before, after) => (v ++ before, after) := by
  induction v with
  | nil => simp
  | cons c v ih =>
    obtain ⟨hc, hv⟩ := not_or.1 (mt List.mem_cons.2 hv)
    rw [List.cons_append, Tag.cutCloseTag?, if_neg fun he => hc he.symm]
    dsimp only
    rw [ih hv, Option.map_map]
    rfl

theorem closeTag?_at (hname : IsAscii name) (h : At t i ('<' :: u))
    (hfits : i + (byteLength name + 2) ≤ (bytes t).length) :
    ∃ b, (bytes t)[i + 1]? = some b ∧
      (is (· = '/') b && startsWithName (bytes t) (i + 2) name &&
        ((bytes t)[i + (byteLength name + 2)]?).all (is Tag.endsName)) =
          (Tag.closeTag? name u).isSome ∧
      ∀ after, Tag.closeTag? name u = some after →
        ∃ e, afterBracketAt? (bytes t) (i + (byteLength name + 2)) = some e ∧ At t e after := by
  have hlen := h.length
  have hafter : At t (i + 1) u := h.tail_ascii
  cases u with
  | nil =>
    rw [Text.byteLength_cons, utf8Size_of_ascii (by decide), Text.byteLength_nil] at hlen
    omega
  | cons c w =>
    obtain ⟨b, hb, his⟩ := hafter.get?_cons
    refine ⟨b, hb, ?_⟩
    rw [his _ asciiOnly_eq]
    by_cases hc : c = '/'
    · subst hc
      have hnext : At t (i + 2) w := hafter.tail_ascii
      rw [hnext.startsWithName hname, Tag.closeTag?]
      cases hstrip : Ascii.stripName? name w with
      | none => exact ⟨by simp, fun _ hnone => absurd hnone.symm (Option.some_ne_none _)⟩
      | some rest =>
        have hrest : At t (i + (byteLength name + 2)) rest := by
          rw [Nat.add_comm (byteLength name), ← Nat.add_assoc]
          exact hnext.stripName? hname hstrip
        rw [hrest.all_get? asciiOnly_endsName]
        dsimp only
        split
        · next hends =>
          refine ⟨by simp [hends], ?_⟩
          rintro after ⟨⟩
          exact hrest.afterBracket
        · next hends =>
          exact ⟨by simp [hends], fun _ hnone => absurd hnone.symm (Option.some_ne_none _)⟩
    · have hnone : Tag.closeTag? name (c :: w) = none := by
        unfold Tag.closeTag?
        split
        · next he => exact absurd (List.cons.inj he).1 hc
        · rfl
      rw [hnone]
      exact ⟨by simp [hc], fun _ hnone => absurd hnone.symm (Option.some_ne_none _)⟩

/-- **Close tags are found by bytes as by characters.** -/
theorem reads_closeTagFrom? (hname : IsAscii name) (h : At t i u) :
    Reads t (closeTagFrom? name (bytes t) i)
      ((Tag.cutCloseTag? name u).map fun (before, after) => (i + byteLength before, after)) := by
  induction hn : u.length using Nat.strongRecOn generalizing i u with
  | ind n ih =>
    subst hn
    have hlen := h.length
    rw [closeTagFrom?]
    by_cases hfits : i + (byteLength name + 2) ≤ (bytes t).length
    · rw [if_pos hfits, h.after?]
      have hrun : '<' ∉ u.takeWhile (· ≠ '<') := fun hmem => by
        simpa using Text.of_mem_takeWhile hmem
      rcases h.seek (a := '<') with ⟨-, htake, hseek⟩ | ⟨cs, hrest, hseek, hat, hnext⟩
      · have hcut := cutCloseTag?_run name hrun []
        rw [htake, List.append_nil] at hcut
        dsimp only
        rw [hseek, hcut]
        exact ⟨none, rfl, .none⟩
      · have happend := List.takeWhile_append_dropWhile (p := (· ≠ '<')) (l := u)
        have hcut := cutCloseTag?_run name hrun ('<' :: cs)
        have hshort : cs.length < u.length := Text.length_lt_of_dropWhile hrest
        rw [hrest] at happend
        rw [happend] at hcut
        dsimp only
        rw [hseek, hcut]
        generalize u.takeWhile (· ≠ '<') = run at *
        have hbracket := hat.append
        have hstart := hbracket.length
        dsimp only
        by_cases htail : (bytes t).length < i + byteLength run + (byteLength name + 2)
        · rw [if_pos htail, cutCloseTag?_of_short hname (by omega)]
          exact ⟨none, rfl, .none⟩
        · obtain ⟨b, hb, htest, hends⟩ := closeTag?_at hname hbracket (by omega)
          rw [if_neg htail, hb]
          dsimp only
          rw [htest, Tag.cutCloseTag?, if_pos rfl]
          cases hclose : Tag.closeTag? name cs with
          | some after =>
            obtain ⟨e, he, hend⟩ := hends after hclose
            rw [if_pos Option.isSome_some, he]
            refine ⟨_, rfl, ?_⟩
            simpa using Agrees.some hend
          | none =>
            obtain ⟨r, hr, hagrees⟩ := ih cs.length hshort hnext rfl
            rw [Option.isSome_none, if_neg Bool.false_ne_true, hr]
            have hbyte : '<'.utf8Size = 1 := rfl
            refine ⟨r, rfl, ?_⟩
            simpa [Function.comp_def, hbyte, Nat.add_assoc] using hagrees
    · rw [if_neg hfits, cutCloseTag?_of_short hname (by omega)]
      exact ⟨none, rfl, .none⟩

/-- A text without a close tag, written before one, is found to end where it does. -/
theorem closeTagFrom?_append (hname : IsAscii name) (hbracket : '<' ∉ name) {s : Text}
    (hs : ¬Tag.Closes name s) :
    closeTagFrom? name (bytes (s ++ ('<' :: '/' :: (name ++ ['>'])))) 0 =
      some (some (byteLength s, byteLength s + (byteLength name + 3))) := by
  obtain ⟨r, hr, hagrees⟩ :=
    reads_closeTagFrom? hname (At.start (s ++ ('<' :: '/' :: (name ++ ['>']))))
  rw [hr]
  rw [Tag.cutCloseTag?_append hbracket hs] at hagrees
  cases hagrees with
  | some hend =>
    have hlength := hend.length
    rw [length_bytes] at hlength
    simp only [Text.byteLength_append, Text.byteLength_cons, Text.byteLength_nil,
      show '<'.utf8Size = 1 from rfl, show '/'.utf8Size = 1 from rfl,
      show '>'.utf8Size = 1 from rfl] at hlength
    simp only [Nat.zero_add, Option.some.injEq, Prod.mk.injEq, true_and]
    omega

example : Tag.cutCloseTag? "script".toList "</scripts></SCRIPT >".toList =
    some ("</scripts>".toList, []) := by
  decide +kernel

end

end Stencil.Bytes
