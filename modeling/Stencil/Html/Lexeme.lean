import Stencil.Html.Tag
import Stencil.Text.Search
import Stencil.Text.Space

/-!
# Lexemes

A lexeme is the smallest stretch of a fragment that is read as one thing: text up to the
next opening bracket, a tag, a comment, a doctype, or something malformed. `read` takes one
off the front of a non-empty text and never looks at what came before.
-/

namespace Stencil.Html

/-- What a stretch of the fragment amounts to. -/
inductive Lexeme where
  /-- Decoded text, which joins the text around it. -/
  | text (content : Text)
  | token (t : Token)
  /-- A stretch that is dropped; text before and after it is one run. -/
  | nothing
  deriving DecidableEq, Repr

namespace Lexeme

/-- A malformed declaration: everything up to the next closing bracket is a comment. -/
def bogusComment (t : Text) : Lexeme × Text :=
  (.token (.comment (t.takeWhile (· ≠ '>'))), Tag.afterBracket t)

/-- A comment, after its opening. One that is not closed runs to the end. -/
def comment (t : Text) : Lexeme × Text :=
  match Text.cut? "-->".toList t with
  | some (content, rest) => (.token (.comment content), rest)
  | none => (.token (.comment t), [])

/-- A doctype, after its opening bracket and exclamation mark. -/
def doctype (t : Text) : Lexeme × Text :=
  match t.dropWhile (· ≠ '>') with
  | [] => (.nothing, [])
  | _ :: rest => (.token (.doctype (Text.trim (t.takeWhile (· ≠ '>')))), rest)

/-- What an opening bracket and an exclamation mark start. -/
def declaration (t : Text) : Lexeme × Text :=
  match "--".toList.isPrefixOf? t with
  | some content => comment content
  | none => if (Ascii.stripName? "doctype".toList t).isSome then doctype t else bogusComment t

/-- What an opening bracket and a slash start. Whatever follows the name of an end tag is dropped
up to the closing bracket. -/
def endTag : Text → Lexeme × Text
  | [] => (.text "</".toList, [])
  | c :: cs =>
    if c.isAlpha then
      match (cs.dropWhile fun d => !Tag.endsName d).dropWhile (· ≠ '>') with
      | [] => (.nothing, [])
      | _ :: rest =>
        (.token (.endTag (Ascii.lower (c :: cs.takeWhile fun d => !Tag.endsName d))), rest)
    else if c = '>' then (.nothing, cs)
    else bogusComment (c :: cs)

/-- A start tag whose name starts with the letter `c`. One that the text ends in is dropped. -/
def startTag (c : Char) (t : Text) : Lexeme × Text :=
  match Tag.attributes? [] (t.dropWhile fun d => !Tag.endsName d) with
  | some (attributes, selfClosing, rest) =>
    (.token (.startTag (Ascii.lower (c :: t.takeWhile fun d => !Tag.endsName d)) attributes
      selfClosing), rest)
  | none => (.nothing, [])

/-- What an opening bracket starts. -/
def markup : Text → Lexeme × Text
  | [] => (.text ['<'], [])
  | c :: cs =>
    if c = '!' then declaration cs
    else if c = '?' then bogusComment (c :: cs)
    else if c = '/' then endTag cs
    else if c.isAlpha then startTag c cs
    else (.text ['<'], c :: cs)

/-- The first lexeme of a text that starts with `c`, and the text after it. -/
def read (c : Char) (cs : Text) : Lexeme × Text :=
  if c = '<' then markup cs
  else (.text (Reference.decode (c :: cs.takeWhile (· ≠ '<'))), cs.dropWhile (· ≠ '<'))

theorem length_bogusComment_le (t : Text) : (bogusComment t).2.length ≤ t.length :=
  Tag.length_afterBracket_le t

theorem length_comment_le (t : Text) : (comment t).2.length ≤ t.length := by
  unfold comment
  split
  · next h =>
    have := Text.length_of_cut? h
    dsimp only
    omega
  · simp

theorem length_doctype_le (t : Text) : (doctype t).2.length ≤ t.length := by
  unfold doctype
  split
  · simp
  · next h => exact Nat.le_of_lt (Text.length_lt_of_dropWhile h)

theorem length_declaration_le (t : Text) : (declaration t).2.length ≤ t.length := by
  unfold declaration
  split
  · next content h =>
    have := length_comment_le content
    have := congrArg List.length (Text.eq_append_of_isPrefixOf? h)
    rw [List.length_append] at this
    omega
  · split
    · exact length_doctype_le t
    · exact length_bogusComment_le t

theorem length_endTag_le (t : Text) : (endTag t).2.length ≤ t.length := by
  unfold endTag
  split
  · simp
  · next c cs =>
    split
    · split
      · simp
      · next h =>
        have := Text.length_lt_of_dropWhile h
        have := (List.dropWhile_suffix (l := cs) fun d => !Tag.endsName d).length_le
        simp only [List.length_cons]
        omega
    · split
      · simp
      · exact length_bogusComment_le _

theorem length_startTag_le (c : Char) (t : Text) : (startTag c t).2.length ≤ t.length := by
  unfold startTag
  split
  · next h =>
    have := Tag.length_of_attributes? h
    have := (List.dropWhile_suffix (l := t) fun d => !Tag.endsName d).length_le
    dsimp only
    omega
  · simp

theorem length_markup_le (t : Text) : (markup t).2.length ≤ t.length := by
  unfold markup
  split
  · simp
  · next c cs =>
    split
    · exact Nat.le_succ_of_le (length_declaration_le cs)
    · split
      · exact length_bogusComment_le _
      · split
        · exact Nat.le_succ_of_le (length_endTag_le cs)
        · split
          · exact Nat.le_succ_of_le (length_startTag_le c cs)
          · exact Nat.le_refl _

theorem length_read_le (c : Char) (cs : Text) : (read c cs).2.length ≤ cs.length := by
  unfold read
  split
  · exact length_markup_le cs
  · exact (List.dropWhile_suffix _).length_le

end Lexeme

end Stencil.Html
