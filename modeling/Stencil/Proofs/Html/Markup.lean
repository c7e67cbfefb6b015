import Stencil.Html.Serializer
import Stencil.Proofs.Html.Body
import Stencil.Proofs.Html.Escape

/-!
# Reading what was written

Tags and comments are read back as they are written: a start tag with its attributes
(`read_startTagEnd`), an end tag (`read_endTag`), a comment that holds no end of one
(`read_comment`), and a run of text up to the next tag (`pull_text`).
-/

namespace Stencil.Html

/-! ### What is written -/

theorem textIn_of_raw {e : Element} (h : e.holdsRawText = true) (t : Text) : textIn e t = t := by
  rw [textIn, h]
  rfl

theorem textIn_of_not_raw {e : Element} (h : e.holdsRawText = false) (t : Text) :
    textIn e t = escapeText t := by
  rw [textIn, h]
  rfl

theorem commentText_append (t rest : Text) :
    commentText t ++ rest = '<' :: '!' :: '-' :: '-' :: (t ++ '-' :: '-' :: '>' :: rest) := by
  rw [commentText, List.append_assoc, List.append_assoc]
  rfl

theorem endTagText_append (name rest : Text) :
    endTagText name ++ rest = '<' :: '/' :: (name ++ '>' :: rest) := by
  rw [endTagText, List.append_assoc, List.append_assoc]
  rfl

theorem attributeText_append (name value rest : Text) : attributeText name value ++ rest =
    ' ' :: (name ++ '=' :: '"' :: (escapeAttribute value ++ '"' :: rest)) := by
  rw [attributeText, List.append_assoc, List.append_assoc, List.append_assoc]
  rfl

theorem elementText_append (e : Element) (contents rest : Text) :
    elementText e contents ++ rest =
      '<' :: (e.name ++ (attributesText e.attributes ++ '>' :: (closing e contents ++ rest))) := by
  rw [elementText, List.append_assoc, List.append_assoc]
  rfl

namespace Tag

/-! ### Attributes -/

theorem endsName_eq_false {c : Char} (h : endsName c = false) :
    Ascii.isBlank c = false ∧ c ≠ '/' ∧ c ≠ '>' := by
  rw [endsName, Bool.or_eq_false_iff, Bool.or_eq_false_iff] at h
  exact ⟨h.1.1, of_decide_eq_false h.1.2, of_decide_eq_false h.2⟩

theorem dropWhile_isBlank {c : Char} (h : Ascii.isBlank c = false) (t : Text) :
    (c :: t).dropWhile Ascii.isBlank = c :: t := by
  rw [List.dropWhile_cons_of_neg (by simp [h])]

theorem value?_quoted (v rest : Text) :
    value? ('=' :: '"' :: (escapeAttribute v ++ '"' :: rest)) = some (some v, rest) := by
  have hrun : ∀ c ∈ escapeAttribute v, decide (c ≠ '"') = true := by
    intro c hc
    rw [decide_eq_true_eq]
    rintro rfl
    exact quote_not_mem_escapeAttribute v hc
  have hend : ('"' :: rest).head?.all (fun c => !decide (c ≠ '"')) = true := by simp
  have hquoted :
      quoted? '"' (escapeAttribute v ++ '"' :: rest) = some (escapeAttribute v, rest) := by
    rw [quoted?, Text.dropWhile_run hrun hend, Text.takeWhile_run hrun hend]
  have hvalue : valueAfterEquals? ('"' :: (escapeAttribute v ++ '"' :: rest)) =
      some (escapeAttribute v, rest) := by
    rw [valueAfterEquals?, dropWhile_isBlank (by decide)]
    exact hquoted
  rw [value?, dropWhile_isBlank (by decide)]
  change Option.map _ (valueAfterEquals? _) = _
  rw [hvalue, Option.map_some]
  dsimp only
  rw [Reference.decode_escapeAttribute]

theorem attribute?_attributeText {c : Char} {cs : Text}
    (hcs : ∀ d ∈ cs, inAttributeName d = true) (v rest : Text) :
    attribute? c (cs ++ '=' :: '"' :: (escapeAttribute v ++ '"' :: rest)) =
      some ((Ascii.lower (c :: cs), some v), rest) := by
  have hend : ('=' :: '"' :: (escapeAttribute v ++ '"' :: rest)).head?.all
      (fun c => !inAttributeName c) = true := by
    simp [inAttributeName]
  rw [attribute?, Text.dropWhile_run hcs hend, Text.takeWhile_run hcs hend, value?_quoted]
  rfl

theorem addNew_of_not_mem {as : List WrittenAttribute} {a : WrittenAttribute}
    (h : a.1 ∉ as.map Prod.fst) : addNew as a = as ++ [a] := by
  rw [addNew, if_neg]
  intro hany
  obtain ⟨b, hb, he⟩ := List.any_eq_true.1 hany
  exact h (List.mem_map.2 ⟨b, hb, of_decide_eq_true he⟩)

/-- Attributes as a start tag is read that is written with them. -/
def writtenAttributes (as : Attributes) : List WrittenAttribute :=
  as.map fun (n, v) => (Ascii.lower n, some v)

theorem attributesText_cons (n v : Text) (as : Attributes) :
    attributesText ((n, v) :: as) = attributeText n v ++ attributesText as := by
  rw [attributesText, List.flatMap_cons]
  rfl

theorem attributes?_attribute {found : List WrittenAttribute} {c : Char} (hc : endsName c = false)
    {t rest : Text} {a : WrittenAttribute} (h : attribute? c t = some (a, rest)) :
    attributes? found (' ' :: c :: t) = attributes? (addNew found a) rest := by
  obtain ⟨hblank, hslash, hbracket⟩ := endsName_eq_false hc
  have hdrop : (' ' :: c :: t).dropWhile Ascii.isBlank = c :: t := by
    rw [List.dropWhile_cons_of_pos (by decide), dropWhile_isBlank hblank]
  rw [attributes?_cons hdrop, if_neg hbracket, if_neg hslash, h, Option.bind_some]

/-- **Attributes that are written are read back**, and what follows them is read after them. -/
theorem attributes?_append {as : Attributes} (hnames : ∀ a ∈ as, IsAttributeName a.1)
    {found : List WrittenAttribute}
    (hdistinct : ((found ++ writtenAttributes as).map Prod.fst).Nodup) (rest : Text) :
    attributes? found (attributesText as ++ rest) =
      attributes? (found ++ writtenAttributes as) rest := by
  induction as generalizing found with
  | nil => rw [writtenAttributes, List.map_nil, List.append_nil, attributesText, List.flatMap_nil,
      List.nil_append]
  | cons a as ih =>
    obtain ⟨n, v⟩ := a
    obtain ⟨c, cs, rfl, hc, hcs⟩ := hnames (n, v) List.mem_cons_self
    have htext : attributesText ((c :: cs, v) :: as) ++ rest =
        ' ' :: c :: (cs ++ '=' :: '"' :: (escapeAttribute v ++ '"' ::
          (attributesText as ++ rest))) := by
      rw [attributesText_cons, List.append_assoc, attributeText_append]
      rfl
    have hsplit : found ++ writtenAttributes ((c :: cs, v) :: as) =
        (found ++ [(Ascii.lower (c :: cs), some v)]) ++ writtenAttributes as := by
      simp [writtenAttributes]
    have hnew : Ascii.lower (c :: cs) ∉ found.map Prod.fst := by
      intro hmem
      rw [List.map_append, List.nodup_append] at hdistinct
      exact hdistinct.2.2 _ hmem _ List.mem_cons_self rfl
    rw [hsplit] at hdistinct
    rw [htext, attributes?_attribute hc (attribute?_attributeText hcs v _), addNew_of_not_mem hnew,
      ih (fun a ha => hnames a (List.mem_cons_of_mem _ ha)) hdistinct, hsplit]

/-- The end of a start tag, with a slash or without one. -/
def startTagEnd (slash : Bool) : Text := if slash then "/>".toList else ['>']

theorem attributes?_startTagEnd (found : List WrittenAttribute) (slash : Bool) (rest : Text) :
    attributes? found (startTagEnd slash ++ rest) = some (found, slash, rest) := by
  cases slash with
  | false =>
    exact (attributes?_cons (dropWhile_isBlank (by decide) rest) found).trans (if_pos rfl)
  | true =>
    have hcons := attributes?_cons (dropWhile_isBlank (c := '/') (by decide) ('>' :: rest)) found
    rw [if_neg (by decide), if_pos rfl, if_pos List.head?_cons] at hcons
    exact hcons

end Tag

namespace Lexeme

/-! ### Tags and comments -/

theorem markup_of_isAlpha {c : Char} (h : c.isAlpha = true) (t : Text) :
    markup (c :: t) = startTag c t := by
  have hne (d : Char) (hd : d.isAlpha = false) : c ≠ d := by
    rintro rfl
    rw [h] at hd
    cases hd
  rw [markup, if_neg (hne '!' (by decide)), if_neg (hne '?' (by decide)),
    if_neg (hne '/' (by decide)), if_pos h]

/-- **A start tag is read back as it is written**, in small letters. -/
theorem read_startTagEnd {name : Text} (hname : Tag.IsName name) {as : Attributes}
    (hnames : ∀ a ∈ as, Tag.IsAttributeName a.1)
    (hdistinct : ((Tag.writtenAttributes as).map Prod.fst).Nodup) (slash : Bool) (rest : Text) :
    read '<' (name ++ (attributesText as ++ (Tag.startTagEnd slash ++ rest))) =
      (.token (.startTag (Ascii.lower name) (Tag.writtenAttributes as) slash), rest) := by
  obtain ⟨c, cs, rfl, hc, hcs⟩ := hname
  have hrun : ∀ d ∈ cs, (!Tag.endsName d) = true := fun d hd => by simp [hcs d hd]
  have hend : (attributesText as ++ (Tag.startTagEnd slash ++ rest)).head?.all
      (fun d => !!Tag.endsName d) = true := by
    cases as with
    | nil => cases slash <;> rfl
    | cons a as => rfl
  have hread : Tag.attributes? [] (attributesText as ++ (Tag.startTagEnd slash ++ rest)) =
      some (Tag.writtenAttributes as, slash, rest) :=
    (Tag.attributes?_append hnames hdistinct _).trans (Tag.attributes?_startTagEnd _ slash rest)
  rw [read, if_pos rfl, List.cons_append, markup_of_isAlpha hc, startTag,
    Text.dropWhile_run hrun hend, Text.takeWhile_run hrun hend, hread]

theorem read_startTag {name : Text} (hname : Tag.IsName name) {as : Attributes}
    (hnames : ∀ a ∈ as, Tag.IsAttributeName a.1)
    (hdistinct : ((Tag.writtenAttributes as).map Prod.fst).Nodup) (rest : Text) :
    read '<' (name ++ (attributesText as ++ '>' :: rest)) =
      (.token (.startTag (Ascii.lower name) (Tag.writtenAttributes as) false), rest) :=
  read_startTagEnd hname hnames hdistinct false rest

/-- **An end tag is read back as it is written**, in small letters. -/
theorem read_endTag {name : Text} (hname : Tag.IsName name) (rest : Text) :
    read '<' ('/' :: (name ++ '>' :: rest)) = (.token (.endTag (Ascii.lower name)), rest) := by
  obtain ⟨c, cs, rfl, hc, hcs⟩ := hname
  have hrun : ∀ d ∈ cs, (!Tag.endsName d) = true := fun d hd => by simp [hcs d hd]
  have hend : ('>' :: rest).head?.all (fun d => !!Tag.endsName d) = true := rfl
  have hbracket : ('>' :: rest).dropWhile (· ≠ '>') = '>' :: rest := by
    rw [List.dropWhile_cons_of_neg (by simp)]
  change endTag (c :: (cs ++ '>' :: rest)) = _
  rw [endTag, if_pos hc, Text.dropWhile_run hrun hend, Text.takeWhile_run hrun hend, hbracket]

theorem cut?_comment {t : Text} (h : Text.cut? "-->".toList t = none) (rest : Text) :
    Text.cut? "-->".toList (t ++ '-' :: '-' :: '>' :: rest) = some (t, rest) :=
  Text.cut?_append (by decide) h rest

/-- **A comment is read back as it is written.** -/
theorem read_comment {t : Text} (h : Text.cut? "-->".toList t = none) (rest : Text) :
    read '<' ('!' :: '-' :: '-' :: (t ++ '-' :: '-' :: '>' :: rest)) =
      (.token (.comment t), rest) := by
  change declaration ('-' :: '-' :: (t ++ '-' :: '-' :: '>' :: rest)) = _
  have hprefix : "--".toList.isPrefixOf? ('-' :: '-' :: (t ++ '-' :: '-' :: '>' :: rest)) =
      some (t ++ '-' :: '-' :: '>' :: rest) := Text.isPrefixOf?_append "--".toList _
  rw [declaration, hprefix]
  dsimp only
  rw [comment, cut?_comment h]

end Lexeme

namespace Scanner

theorem pull_token {c : Char} {cs rest : Text} {token : Token}
    (h : Lexeme.read c cs = (.token token, rest)) : pull (c :: cs) = ([], some token, rest) := by
  rw [pull]
  split
  · next he =>
    rw [h] at he
    cases he
  · next he =>
    rw [h] at he
    cases he
  · next he =>
    rw [h] at he
    cases he
    rfl

/-- A lexeme of text joins the text after it. -/
theorem pull_of_read_text {c : Char} {cs t rest : Text} (h : Lexeme.read c cs = (.text t, rest)) :
    pull (c :: cs) = (t ++ (pull rest).1, (pull rest).2) := by
  rw [pull]
  split
  · next he =>
    rw [h] at he
    cases he
    rfl
  · next he =>
    rw [h] at he
    cases he
  · next he =>
    rw [h] at he
    cases he

/-- **Text without an opening bracket is read whole**, up to the end or the next opening bracket. -/
theorem pull_text {t : Text} (ht : t ≠ []) (hbracket : '<' ∉ t) {rest : Text}
    (hrest : rest.head?.all (· = '<') = true) :
    pull (t ++ rest) = (Reference.decode t ++ (pull rest).1, (pull rest).2) := by
  cases t with
  | nil => exact absurd rfl ht
  | cons c cs =>
    have hc : c ≠ '<' := fun h => hbracket (h ▸ List.mem_cons_self)
    have hrun : ∀ d ∈ cs, decide (d ≠ '<') = true := by
      intro d hd
      rw [decide_eq_true_eq]
      rintro rfl
      exact hbracket (List.mem_cons_of_mem _ hd)
    have hend : rest.head?.all (fun d => !decide (d ≠ '<')) = true := by
      simpa using hrest
    have hread : Lexeme.read c (cs ++ rest) = (.text (Reference.decode (c :: cs)), rest) := by
      rw [Lexeme.read, if_neg hc, Text.takeWhile_run hrun hend, Text.dropWhile_run hrun hend]
    rw [List.cons_append, pull_of_read_text hread]

end Scanner

end Stencil.Html
