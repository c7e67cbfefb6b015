import Stencil.Html.Lexeme
import Stencil.Proofs.Bytes.Tag

/-!
# Lexemes by bytes

One lexeme read at a position. Every position that a slice is cut at is the start of the text, or
stands before or after an ASCII character that was found, so the slice has an answer; and the reader
moves on (`stands_lexemeAt?`).
-/

namespace Stencil.Bytes

open Text (bytes byteLength)
open Html

/-- A malformed declaration from position `i` on. -/
def bogusCommentAt? (t : Text) (i : Nat) : Option (Lexeme × Nat) :=
  match after? (bytes t) i with
  | none => none
  | some rest =>
    match seek? (· = '>') rest with
    | some n => (range? t i (i + n)).map fun content => (.token (.comment content), i + n + 1)
    | none => (from? t i).map fun content => (.token (.comment content), (bytes t).length)

/-- A comment whose contents start at position `i`. -/
def commentAt? (t : Text) (i : Nat) : Option (Lexeme × Nat) :=
  match from? t i with
  | none => none
  | some rest =>
    match find? "-->".toList rest with
    | some n => (range? t i (i + n)).map fun content =>
      (.token (.comment content), i + n + byteLength "-->".toList)
    | none => some (.token (.comment rest), (bytes t).length)

/-- A doctype whose word starts at position `i`. -/
def doctypeAt? (t : Text) (i : Nat) : Option (Lexeme × Nat) :=
  match from? t i with
  | none => none
  | some rest =>
    match seek? (· = '>') (bytes rest) with
    | some n => (upTo? rest n).map fun content => (.token (.doctype (Text.trim content)), i + n + 1)
    | none => some (.nothing, (bytes t).length)

/-- What follows the opening bracket and the slash before position `i`. -/
def endTagAt? (t : Text) (i : Nat) : Option (Lexeme × Nat) :=
  match (bytes t)[i]? with
  | none => some (.text "</".toList, (bytes t).length)
  | some b =>
    if is Char.isAlpha b then
      let j := skipWhile (fun c => !Tag.endsName c) (bytes t) i
      match range? t i j, after? (bytes t) j with
      | some name, some rest =>
        match seek? (· = '>') rest with
        | some n => some (.token (.endTag (Ascii.lower name)), j + n + 1)
        | none => some (.nothing, (bytes t).length)
      | _, _ => none
    else if is (· = '>') b then some (.nothing, i + 1)
    else bogusCommentAt? t i

/-- A start tag whose name starts at position `i`. -/
def startTagAt? (t : Text) (i : Nat) : Option (Lexeme × Nat) :=
  let k := skipWhile (fun c => !Tag.endsName c) (bytes t) i
  match range? t i k, attributesFrom? t k [] with
  | some name, some (some ((attributes, selfClosing), j)) =>
    some (.token (.startTag (Ascii.lower name) attributes selfClosing), j)
  | some _, some none => some (.nothing, (bytes t).length)
  | _, _ => none

/-- What starts with the opening bracket at position `i`. -/
def markupAt? (t : Text) (i : Nat) : Option (Lexeme × Nat) :=
  match from? t i with
  | none => none
  | some rest =>
    if ("<!--".toList.isPrefixOf? rest).isSome then commentAt? t (i + byteLength "<!--".toList)
    else if startsWithName (bytes t) i "<!doctype".toList then doctypeAt? t (i + 2)
    else
      match (bytes t)[i + 1]? with
      | none => some (.text ['<'], i + 1)
      | some b =>
        if is (· = '!') b then bogusCommentAt? t (i + 2)
        else if is (· = '?') b then bogusCommentAt? t (i + 1)
        else if is (· = '/') b then endTagAt? t (i + 2)
        else if is Char.isAlpha b then startTagAt? t (i + 1)
        else some (.text ['<'], i + 1)

/-- The lexeme at position `i`, and the position after it. -/
def lexemeAt? (t : Text) (i : Nat) : Option (Lexeme × Nat) :=
  match (bytes t)[i]?, after? (bytes t) i with
  | some b, some rest =>
    if is (· = '<') b then markupAt? t i
    else
      let e := match seek? (· = '<') rest with
        | some n => i + n
        | none => (bytes t).length
      match range? t i e with
      | none => none
      | some run => (decode? run).map fun content => (.text content, e)
  | _, _ => none

theorem find?_eq (needle t : Text) :
    find? needle t = (Text.cut? needle t).map fun (before, _) => byteLength before := rfl

theorem asciiOnly_isAlpha : AsciiOnly Char.isAlpha :=
  asciiOnly_of_false fun _ => isAlpha_of_not_ascii

theorem asciiOnly_not_endsName : AsciiOnly fun c => !Tag.endsName c := asciiOnly_endsName.not

section

variable {t u : Text} {i : Nat}

theorem stands_bogusCommentAt? (h : At t i u) :
    Stands t (bogusCommentAt? t i) (Lexeme.bogusComment u) := by
  rw [bogusCommentAt?, h.after?, Lexeme.bogusComment, Tag.afterBracket]
  dsimp only
  rcases h.seek (a := '>') with ⟨hrest, htake, hseek⟩ | ⟨rest, hrest, hseek, hat, hnext⟩
  · rw [hseek, hrest, htake]
    dsimp only
    rw [h.from?]
    exact ⟨_, rfl, At.eof t⟩
  · rw [hseek, hrest]
    dsimp only
    rw [hat.range?]
    exact ⟨_, rfl, hnext⟩

theorem stands_commentAt? (h : At t i u) : Stands t (commentAt? t i) (Lexeme.comment u) := by
  rw [commentAt?, h.from?, Lexeme.comment]
  dsimp only
  rw [find?_eq]
  cases hcut : Text.cut? "-->".toList u with
  | none => exact ⟨_, rfl, At.eof t⟩
  | some p =>
    obtain ⟨content, rest⟩ := p
    have hat : At t i (content ++ ("-->".toList ++ rest)) := by
      rw [← List.append_assoc, ← Text.eq_of_cut? hcut]
      exact h
    rw [Option.map_some]
    dsimp only
    rw [hat.range?]
    exact ⟨_, rfl, hat.append.append⟩

theorem stands_doctypeAt? (h : At t i u) : Stands t (doctypeAt? t i) (Lexeme.doctype u) := by
  rw [doctypeAt?, h.from?, Lexeme.doctype]
  dsimp only
  rcases h.seek (a := '>') with ⟨hrest, -, hseek⟩ | ⟨rest, hrest, hseek, -, hnext⟩
  · rw [hseek, hrest]
    exact ⟨_, rfl, At.eof t⟩
  · have hslice := Text.takeBytes?_append (u.takeWhile (· ≠ '>')) (u.dropWhile (· ≠ '>'))
    rw [List.takeWhile_append_dropWhile] at hslice
    rw [hseek, hrest]
    dsimp only
    rw [upTo?, hslice]
    exact ⟨_, rfl, hnext⟩

theorem At.tagName {c : Char} (hc : c.isAlpha = true) (h : At t i (c :: u)) :
    Bytes.skipWhile (fun c => !Tag.endsName c) (bytes t) i =
        i + byteLength (c :: u.takeWhile fun c => !Tag.endsName c) ∧
      At t i ((c :: u.takeWhile fun c => !Tag.endsName c) ++
        u.dropWhile fun c => !Tag.endsName c) := by
  have hname : (!Tag.endsName c) = true := by rw [Tag.endsName_of_isAlpha hc, Bool.not_false]
  have htake : (c :: u).takeWhile (fun c => !Tag.endsName c) =
    c :: u.takeWhile fun c => !Tag.endsName c := List.takeWhile_cons_of_pos hname
  have hdrop : (c :: u).dropWhile (fun c => !Tag.endsName c) =
    u.dropWhile fun c => !Tag.endsName c := List.dropWhile_cons_of_pos hname
  have hsplit := h.split fun c => !Tag.endsName c
  rw [h.skipWhile asciiOnly_not_endsName, htake]
  rw [htake, hdrop] at hsplit
  exact ⟨rfl, hsplit⟩

theorem stands_endTagAt? (h : At t i u) : Stands t (endTagAt? t i) (Lexeme.endTag u) := by
  cases u with
  | nil =>
    rw [endTagAt?, h.get?_nil]
    exact ⟨_, rfl, At.eof t⟩
  | cons c cs =>
    obtain ⟨b, hb, his⟩ := h.get?_cons
    rw [endTagAt?, hb, Lexeme.endTag]
    dsimp only
    rw [his _ asciiOnly_isAlpha, his _ asciiOnly_eq]
    by_cases hc : c.isAlpha = true
    · obtain ⟨hskip, hsplit⟩ := h.tagName hc
      have hend := hsplit.append
      rw [if_pos hc, if_pos hc, hskip, hsplit.range?, hend.after?]
      dsimp only
      rcases hend.seek (a := '>') with
        ⟨hrest, -, hseek⟩ | ⟨after, hrest, hseek, -, hnext⟩
      · rw [hseek, hrest]
        exact ⟨_, rfl, At.eof t⟩
      · rw [hseek, hrest]
        exact ⟨_, rfl, hnext⟩
    · rw [if_neg hc, if_neg hc]
      by_cases hbracket : c = '>'
      · subst hbracket
        exact ⟨_, rfl, h.tail_ascii⟩
      · rw [if_neg (by simpa using hbracket), if_neg hbracket]
        exact stands_bogusCommentAt? h

theorem stands_startTagAt? {c : Char} (hc : c.isAlpha = true) (h : At t i (c :: u)) :
    Stands t (startTagAt? t i) (Lexeme.startTag c u) := by
  obtain ⟨hskip, hsplit⟩ := h.tagName hc
  have hend := hsplit.append
  rw [startTagAt?, hskip, Lexeme.startTag, hsplit.range?]
  obtain ⟨r, hr, hagrees⟩ := reads_attributesFrom? hend []
  rw [hr]
  generalize Tag.attributes? [] (u.dropWhile fun c => !Tag.endsName c) = y at *
  cases y with
  | none =>
    cases hagrees
    exact ⟨_, rfl, At.eof t⟩
  | some p =>
    obtain ⟨attributes, selfClosing, rest⟩ := p
    cases hagrees with
    | some hat => exact ⟨_, rfl, hat⟩

theorem stands_markupAt?_declaration (h : At t i ('<' :: '!' :: u)) :
    Stands t (markupAt? t i) (Lexeme.declaration u) := by
  have hafter := h.tail_ascii.tail_ascii
  have hcomment : "<!--".toList.isPrefixOf? ('<' :: '!' :: u) = "--".toList.isPrefixOf? u := rfl
  have hdoctype : (Ascii.stripName? "<!doctype".toList ('<' :: '!' :: u)).isSome =
      (Ascii.stripName? "doctype".toList u).isSome := by
    rw [Bool.eq_iff_iff, stripName?_isSome, stripName?_isSome]
    change '<' :: '!' :: Ascii.lower "doctype".toList <+: '<' :: '!' :: Ascii.lower u ↔ _
    rw [List.cons_prefix_cons, List.cons_prefix_cons]
    exact ⟨fun h => h.2.2, fun h => ⟨rfl, rfl, h⟩⟩
  rw [markupAt?, h.from?, Lexeme.declaration]
  dsimp only
  rw [hcomment, h.startsWithName (by decide), hdoctype]
  cases hprefix : "--".toList.isPrefixOf? u with
  | some content =>
    have hu := Text.eq_append_of_isPrefixOf? hprefix
    rw [hu] at hafter
    exact stands_commentAt? hafter.append
  | none =>
    obtain ⟨b, hb, his⟩ := h.tail_ascii.get?_cons
    rw [Option.isSome_none, if_neg Bool.false_ne_true, hb]
    dsimp only
    rw [his _ asciiOnly_eq, if_pos (decide_eq_true rfl)]
    split
    · exact stands_doctypeAt? hafter
    · exact stands_bogusCommentAt? hafter

theorem stands_markupAt? (h : At t i ('<' :: u)) :
    Stands t (markupAt? t i) (Lexeme.markup u) := by
  have hafter := h.tail_ascii
  by_cases hmark : u.head? = some '!'
  · obtain ⟨v, rfl⟩ := List.head?_eq_some_iff.1 hmark
    exact stands_markupAt?_declaration h
  · have hcomment : "<!--".toList.isPrefixOf? ('<' :: u) = none := by
      refine Option.eq_none_iff_forall_ne_some.2 fun r hr => hmark ?_
      rw [(List.cons.inj (Text.eq_append_of_isPrefixOf? hr)).2]
      rfl
    have hdoctype : (Ascii.stripName? "<!doctype".toList ('<' :: u)).isSome = false := by
      rw [← Bool.not_eq_true, stripName?_isSome]
      rintro ⟨r, hr⟩
      change '<' :: '!' :: (Ascii.lower "doctype".toList ++ r) = '<' :: Ascii.lower u at hr
      cases u with
      | nil => cases (List.cons.inj hr).2
      | cons c cs =>
        have hsmall := (List.cons.inj (List.cons.inj hr).2).1
        have hc : c = '!' := (Ascii.toLower_eq_iff (by decide)).1 hsmall.symm
        exact hmark (by rw [hc]; rfl)
    rw [markupAt?, h.from?]
    dsimp only
    rw [hcomment, h.startsWithName (by decide), hdoctype, Option.isSome_none,
      if_neg Bool.false_ne_true, if_neg Bool.false_ne_true]
    cases u with
    | nil =>
      rw [hafter.get?_nil]
      exact ⟨_, rfl, hafter⟩
    | cons c cs =>
      have hnext {d : Char} (hd : d.toNat < 128) (hc : c = d) : At t (i + 2) cs := by
        subst hc
        exact hafter.tail_ascii hd
      obtain ⟨b, hb, his⟩ := hafter.get?_cons
      rw [hb, Lexeme.markup]
      dsimp only
      rw [his _ asciiOnly_eq, his _ asciiOnly_eq,
        his _ asciiOnly_eq, his _ asciiOnly_isAlpha]
      simp only [decide_eq_true_iff]
      by_cases hc : c = '!'
      · exact absurd (congrArg some hc) hmark
      · rw [if_neg hc, if_neg hc]
        split
        · exact stands_bogusCommentAt? hafter
        · split
          · next hslash => exact stands_endTagAt? (hnext (by decide) hslash)
          · split
            · next halpha => exact stands_startTagAt? halpha hafter
            · exact ⟨_, rfl, hafter⟩

/-- **A lexeme is read by bytes as by characters.** -/
theorem stands_lexemeAt? {c : Char} (h : At t i (c :: u)) :
    Stands t (lexemeAt? t i) (Lexeme.read c u) := by
  obtain ⟨b, hb, his⟩ := h.get?_cons
  rw [lexemeAt?, hb, h.after?, Lexeme.read]
  dsimp only
  rw [his _ asciiOnly_eq]
  by_cases hc : c = '<'
  · subst hc
    rw [if_pos (decide_eq_true rfl), if_pos rfl]
    exact stands_markupAt? h
  · have hrun : decide (c ≠ '<') = true := decide_eq_true hc
    have hend : (match seek? (· = '<') (bytes (c :: u)) with
        | some n => i + n
        | none => (bytes t).length) = i + byteLength ((c :: u).takeWhile (· ≠ '<')) := by
      rcases h.seek (a := '<') with ⟨-, htake, hseek⟩ | ⟨-, -, hseek, -, -⟩
      · rw [hseek, htake, h.length]
      · rw [hseek]
    have hsplit := h.split (· ≠ '<')
    have hat := hsplit.append
    rw [if_neg (by simpa using hc), if_neg hc, hend, hsplit.range?]
    dsimp only
    rw [decode?_eq]
    rw [List.takeWhile_cons_of_pos (p := (· ≠ '<')) hrun,
      List.dropWhile_cons_of_pos (p := (· ≠ '<')) hrun] at *
    exact ⟨_, rfl, hat⟩

end

end Stencil.Bytes
