import Stencil.Proofs.Css.Decoding
import Stencil.Proofs.Css.Values
import Stencil.Proofs.Html.Decoding

/-!
# Respelled styles

A style can be spelled in many ways: any character as an escape or a reference, and comments between
the characters. Each way is read back in the same pass over the text, whatever stands next to it: an
escape by code point ends with its blank, any other escape after one character, and a reference with
its semicolon. So reading references and escapes leaves the characters, with the comments as they
were (`Respells.unescape_decode`), and dropping the comments leaves the characters alone
(`dropComments_of_respells`). How a style is spelled does not change what is made of it
(`sanitize_respelled`).
-/

namespace Stencil.Css

/-- A way to spell a character. -/
inductive Spells (c : Char) : Text → Prop where
  | plain : Spells c [c]
  | codePoint {digits : Text} : digits ≠ [] → digits.length ≤ 6 →
    digits.all Ascii.isHexDigit = true → Ascii.ofHex digits = c.toNat →
    Spells c ('\\' :: (digits ++ [' ']))
  | escaped : Ascii.isHexDigit c = false → c ∉ ['\n', '\r', '\x0c'] → Spells c ['\\', c]
  | reference {body : Text} : Html.Reference.decode ('&' :: body) = [c] → Spells c ('&' :: body)

/-- A comment. -/
def comment (body : Text) : Text := commentStart ++ (body ++ commentEnd)

/-- Whether a text can be in a comment that is passed over: nothing in it is decoded, or ends the
comment. -/
def IsCommentBody (t : Text) : Prop := '\\' ∉ t ∧ '&' ∉ t ∧ ¬commentEnd <:+: t

/-- That a text is spelled character by character, with comments anywhere between them. -/
inductive Respells (spells : Char → Text → Prop) : Text → Text → Prop where
  | nil : Respells spells [] []
  | char {c : Char} {w x y : Text} :
    spells c w → Respells spells x y → Respells spells (c :: x) (w ++ y)
  | comment {body x y : Text} :
    IsCommentBody body → Respells spells x y → Respells spells x (comment body ++ y)

/-! ## Characters -/

theorem unescape_append_of_not_mem {t : Text} (h : '\\' ∉ t) (rest : Text) :
    unescape (t ++ rest) = t ++ unescape rest :=
  Text.copy_append (fun _ hc => unescape_cons hc) h rest

theorem decode_append_of_not_mem {t : Text} (h : '&' ∉ t) (rest : Text) :
    Html.Reference.decode (t ++ rest) = t ++ Html.Reference.decode rest :=
  Text.copy_append (fun _ hc => Html.Reference.decode_cons hc) h rest

/-- A reference that stands for one character other than an ampersand is read whole. -/
theorem decode_reference_append {body : Text} {c : Char} (hc : c ≠ '&')
    (h : Html.Reference.decode ('&' :: body) = [c]) (rest : Text) :
    Html.Reference.decode ('&' :: (body ++ rest)) = c :: Html.Reference.decode rest := by
  cases hread : Html.Reference.read? body with
  | none =>
    rw [Html.Reference.decode_of_read?_none hread] at h
    exact absurd (List.cons.inj h).1.symm hc
  | some read =>
    obtain ⟨meaning, after⟩ := read
    rw [Html.Reference.decode_of_read? hread] at h
    have hmeaning : meaning = [c] ∧ after = [] := by
      rcases List.append_eq_singleton_iff.1 h with ⟨hnil, -⟩ | ⟨hone, hafter⟩
      · exact absurd hnil (Html.Reference.ne_nil_of_read? hread)
      · refine ⟨hone, ?_⟩
        apply Classical.byContradiction
        intro hne
        exact Html.Reference.decode_ne_nil hne hafter
    obtain ⟨rfl, rfl⟩ := hmeaning
    rw [Html.Reference.decode_of_read? (Html.Reference.read?_append_of_some hread rest)]
    rfl

/-- A code point of up to six digits is read with the blank after it. -/
theorem unescape_codePoint {digits : Text} (hne : digits ≠ []) (hlength : digits.length ≤ 6)
    (hhex : digits.all Ascii.isHexDigit = true) (rest : Text) :
    unescape ('\\' :: (digits ++ ' ' :: rest)) =
      escaped (Ascii.ofHex digits) :: unescape rest := by
  obtain ⟨d, ds, rfl⟩ := List.exists_cons_of_ne_nil hne
  obtain ⟨hd, hds⟩ := List.forall_mem_cons.1 (List.all_eq_true.1 hhex)
  rw [List.length_cons] at hlength
  have htake : ((ds ++ ' ' :: rest).take (maxDigits - 1)).takeWhile Ascii.isHexDigit = ds := by
    rw [List.take_append, List.take_of_length_le (by change ds.length ≤ 5; omega)]
    apply Text.takeWhile_run hds
    cases maxDigits - 1 - ds.length with
    | zero => rfl
    | succ n => rfl
  have hdrop : dropBlank ((ds ++ ' ' :: rest).drop ds.length) = rest := by
    rw [List.drop_left]
    rfl
  rw [List.cons_append, unescape, if_neg (by simp), if_pos hd, htake]
  dsimp only
  rw [hdrop]

theorem escaped_toNat {c : Char} (hc : c ≠ '\x00') : escaped c.toNat = c := by
  have hvalid : c.toNat.isValidChar := c.valid
  have hne : c.toNat ≠ 0 := fun h => hc (Char.toNat_inj.1 h)
  rw [escaped, dif_pos hvalid, if_neg hne]
  rfl

/-- **A spelled character is read back**, whatever follows it. -/
theorem unescape_decode_spells {c : Char} {w : Text} (h : Spells c w) (hbackslash : c ≠ '\\')
    (hampersand : c ≠ '&') (hnull : c ≠ '\x00') (rest : Text) :
    unescape (Html.Reference.decode (w ++ rest)) =
      c :: unescape (Html.Reference.decode rest) := by
  cases h with
  | plain =>
    rw [List.singleton_append, Html.Reference.decode_cons hampersand, unescape_cons hbackslash]
  | @codePoint digits hne hlength hhex hvalue =>
    have hplain : '&' ∉ '\\' :: (digits ++ [' ']) := by
      intro hmem
      have hdigit : '&' ∈ digits := by simpa using hmem
      exact absurd (List.all_eq_true.1 hhex _ hdigit) (by decide)
    rw [decode_append_of_not_mem hplain, List.cons_append, List.append_assoc,
      List.singleton_append, unescape_codePoint hne hlength hhex, hvalue, escaped_toNat hnull]
  | escaped hhex hbreak =>
    have hplain : '&' ∉ ['\\', c] := by simpa using hampersand.symm
    rw [decode_append_of_not_mem hplain]
    exact unescape_escaped hhex (by simpa [and_assoc] using hbreak) _
  | reference hdecode =>
    rw [List.cons_append, decode_reference_append hampersand hdecode, unescape_cons hbackslash]

/-! ## Comments -/

/-- A comment is passed over when references and escapes are read. -/
theorem unescape_decode_comment {body : Text} (h : IsCommentBody body) (rest : Text) :
    unescape (Html.Reference.decode (comment body ++ rest)) =
      comment body ++ unescape (Html.Reference.decode rest) := by
  obtain ⟨hbackslash, hampersand, -⟩ := h
  have hdecode : '&' ∉ comment body := by
    simp [comment, commentStart, commentEnd, hampersand]
  have hunescape : '\\' ∉ comment body := by
    simp [comment, commentStart, commentEnd, hbackslash]
  rw [decode_append_of_not_mem hdecode, unescape_append_of_not_mem hunescape]

/-- **A respelled text is read back**, with its comments as they were. -/
theorem Respells.unescape_decode {x y : Text} (h : Respells Spells x y) (hbackslash : '\\' ∉ x)
    (hampersand : '&' ∉ x) (hnull : '\x00' ∉ x) :
    Respells (fun c w => w = [c]) x (unescape (Html.Reference.decode y)) := by
  induction h with
  | nil =>
    rw [Html.Reference.decode_nil, unescape]
    exact .nil
  | char hw _ ih =>
    rw [List.mem_cons, not_or] at hbackslash hampersand hnull
    rw [unescape_decode_spells hw (Ne.symm hbackslash.1) (Ne.symm hampersand.1)
      (Ne.symm hnull.1)]
    exact .char rfl (ih hbackslash.2 hampersand.2 hnull.2)
  | comment hbody _ ih =>
    rw [unescape_decode_comment hbody]
    exact .comment hbody (ih hbackslash hampersand hnull)

theorem dropComments_of_cut? {t before body inner after : Text}
    (h : Text.cut? commentStart t = some (before, body))
    (h' : Text.cut? commentEnd body = some (inner, after)) :
    dropComments t = before ++ dropComments after := by
  rw [dropComments]
  split
  · next hnone =>
    rw [h] at hnone
    cases hnone
  · next hstart =>
    rw [h] at hstart
    cases hstart
    split
    · next hnone =>
      rw [h'] at hnone
      cases hnone
    · next hend =>
      rw [h'] at hend
      cases hend
      rfl

theorem dropComments_of_open {t before body : Text}
    (h : Text.cut? commentStart t = some (before, body))
    (h' : Text.cut? commentEnd body = none) : dropComments t = t := by
  rw [dropComments]
  split
  · rfl
  · next hstart =>
    rw [h] at hstart
    cases hstart
    split
    · rfl
    · next hend =>
      rw [h'] at hend
      cases hend

theorem dropComments_cons {c : Char} (hc : c ≠ '/') (t : Text) :
    dropComments (c :: t) = c :: dropComments t := by
  have hprefix : commentStart.isPrefixOf? (c :: t) = none := if_neg fun h => hc (eq_of_beq h).symm
  cases hstart : Text.cut? commentStart t with
  | none =>
    have hcut : Text.cut? commentStart (c :: t) = none := by
      rw [Text.cut?, hprefix, hstart]
      rfl
    rw [dropComments_of_none hcut, dropComments_of_none hstart]
  | some read =>
    obtain ⟨before, body⟩ := read
    have hcut : Text.cut? commentStart (c :: t) = some (c :: before, body) := by
      rw [Text.cut?, hprefix, hstart]
      rfl
    cases hend : Text.cut? commentEnd body with
    | none => rw [dropComments_of_open hcut hend, dropComments_of_open hstart hend]
    | some closed =>
      obtain ⟨inner, after⟩ := closed
      rw [dropComments_of_cut? hcut hend, dropComments_of_cut? hstart hend, List.cons_append]

theorem dropComments_comment_append {body : Text} (h : IsCommentBody body) (rest : Text) :
    dropComments (comment body ++ rest) = dropComments rest := by
  have hnone : Text.cut? commentEnd body = none := by
    apply Option.eq_none_iff_forall_ne_some.2
    intro read hread
    obtain ⟨before, after⟩ := read
    exact h.2.2 ⟨before, after, (Text.eq_of_cut? hread).symm⟩
  have hstart : Text.cut? commentStart (commentStart ++ (body ++ (commentEnd ++ rest))) =
      some ([], body ++ (commentEnd ++ rest)) := rfl
  have hend := Text.cut?_append (by decide) hnone rest
  rw [comment, List.append_assoc, List.append_assoc, dropComments_of_cut? hstart hend]
  rfl

/-- **Dropping comments leaves the characters** that they stand between. -/
theorem dropComments_of_respells {x z : Text} (h : Respells (fun c w => w = [c]) x z)
    (hslash : '/' ∉ x) : dropComments z = x := by
  induction h with
  | nil => exact dropComments_of_none rfl
  | @char c w x y hw _ ih =>
    rw [List.mem_cons, not_or] at hslash
    rw [hw, List.singleton_append, dropComments_cons (Ne.symm hslash.1), ih hslash.2]
  | comment hbody _ ih => rw [dropComments_comment_append hbody, ih hslash]

/-! ## Respelled styles -/

theorem normalize_respelled {x y : Text} (h : Respells Spells x y) (hbackslash : '\\' ∉ x)
    (hampersand : '&' ∉ x) (hslash : '/' ∉ x) (hnull : '\x00' ∉ x) : normalize y = x := by
  have hread := h.unescape_decode hbackslash hampersand hnull
  have hcut : Text.cut? commentStart x = none :=
    Text.cut?_eq_none_of_not_mem (by decide : '/' ∈ commentStart) hslash
  rw [normalize, dropComments_of_respells hread hslash, beforeComment_of_none hcut]

theorem respells_self (x : Text) : Respells Spells x x := by
  induction x with
  | nil => exact .nil
  | cons c x ih => exact .char .plain ih

/-- **How a style is spelled does not change what is made of it.** -/
theorem sanitize_respelled {x y : Text} (h : Respells Spells x y) (hbackslash : '\\' ∉ x)
    (hampersand : '&' ∉ x) (hslash : '/' ∉ x) (hnull : '\x00' ∉ x) :
    normalize y = x ∧ judge y = judge x ∧ sanitize y = sanitize x := by
  have hy := normalize_respelled h hbackslash hampersand hslash hnull
  have hx := normalize_respelled (respells_self x) hbackslash hampersand hslash hnull
  have hjudge : judge y = judge x := by rw [judge, judge, hy, hx]
  exact ⟨hy, hjudge, congrArg Verdict.text hjudge⟩

/-- A function that loads a resource. -/
def plainStyle : Text := ['u', 'r', 'l', '(', 'a', ')']

/-- The same function with its characters spelled in every way, and comments in front of some. -/
def respelledStyle : Text :=
  comment " * ".toList ++ ("\\000075 ".toList ++ ("&#114;".toList ++ (comment [] ++ (['l'] ++
    ("&#x28;".toList ++ ("\\61 ".toList ++ (comment ['/'] ++ (['\\', ')'] ++ []))))))))

theorem respells_respelledStyle : Respells Spells plainStyle respelledStyle := by
  have hbody (body : Text) (h : '\\' ∉ body ∧ '&' ∉ body ∧ ¬commentEnd <:+: body) :
      IsCommentBody body := h
  have hletter : Spells 'u' "\\000075 ".toList :=
    @Spells.codePoint 'u' "000075".toList (by decide) (by decide) (by decide) (by decide)
  have hargument : Spells 'a' "\\61 ".toList :=
    @Spells.codePoint 'a' "61".toList (by decide) (by decide) (by decide) (by decide)
  have hclose : Spells ')' ['\\', ')'] := .escaped (by decide) (by decide)
  apply Respells.comment (hbody _ (by decide))
  apply Respells.char hletter
  apply Respells.char (.reference (by decide +kernel))
  apply Respells.comment (hbody _ (by decide))
  apply Respells.char .plain
  apply Respells.char (.reference (by decide +kernel))
  apply Respells.char hargument
  apply Respells.comment (hbody _ (by decide))
  exact Respells.char hclose .nil

theorem sanitize_respelled_respelledStyle :
    Respells Spells plainStyle respelledStyle ∧
      sanitize respelledStyle = Verdict.insecureText := by
  have h := sanitize_respelled respells_respelledStyle (by decide) (by decide) (by decide)
    (by decide)
  exact ⟨respells_respelledStyle, h.2.2.trans (by decide +kernel)⟩

end Stencil.Css
