import Stencil.Html.Fragment
import Stencil.Proofs.Bytes.Lexeme

/-!
# Fragments by bytes

The scanner as a position in its fragment, from which the rest of the text is never copied out. A
cursor that stands where a scanner does (`Follows`) hands out the same tokens (`Follows.next`), so a
fragment is parsed by bytes as it is by characters, and no slice fails (`parse?_eq`).
-/

namespace Stencil.Bytes

open Text (bytes byteLength)
open Html

/-- Reads up to and including the next token that is not text, from position `i` on, after a run of
text. A lexeme that ends where it starts would be read forever; it counts as a failure. -/
def pullFrom? (t run : Text) (i : Nat) : Option ((Text × Option Token) × Nat) :=
  if i < (bytes t).length then
    match lexemeAt? t i with
    | none => none
    | some (x, j) =>
      if i < j then
        match x with
        | .text s => pullFrom? t (run ++ s) j
        | .nothing => pullFrom? t run j
        | .token k => some ((run, some k), j)
      else none
  else some ((run, none), i)
termination_by (bytes t).length - i

/-- Reads the body of the element `name` and its close tag, from position `i` on. A close tag is
only looked for by an ASCII name. -/
def readBodyAt? (name t : Text) (i : Nat) : Option (List Token × Nat) :=
  match from? t i with
  | none => none
  | some body =>
    if name = "plaintext".toList then some (Token.ofRun body, (bytes t).length)
    else if name.any fun a => 128 ≤ a.toNat then none
    else
      match closeTagFrom? name (bytes body) 0 with
      | none => none
      | some found =>
        let content? := match found with
          | some (start, _) => upTo? body start
          | none => some body
        let e := match found with
          | some (_, e) => i + e
          | none => (bytes t).length
        (content?.bind fun content =>
          if isEscapable name then decode? content else some content).map fun content =>
            (Token.ofRun content ++ [.endTag name], e)

/-- The state between two tokens: a scanner whose rest is a position. -/
structure Cursor where
  pos : Nat
  ready : List Token := []
  body : Option Text := none
  deriving DecidableEq, Repr

namespace Cursor

/-- The tokens of a pending body, if it is one, and the position after them. -/
def readPending? (t : Text) (s : Cursor) (html : Bool) : Option (List Token × Nat) :=
  match s.body with
  | some name => if html then readBodyAt? name t s.pos else some ([], s.pos)
  | none => some ([], s.pos)

/-- Makes tokens ready, if there are any left. -/
def refill? (t : Text) (s : Cursor) (html : Bool) : Option Cursor :=
  match s.readPending? t html with
  | none => none
  | some ([], i) => (pullFrom? t [] i).map fun ((run, token), j) =>
    { pos := j, ready := Token.ofRun run ++ token.toList, body := token.bind Token.opensBody? }
  | some (tokens, i) => some { pos := i, ready := tokens }

/-- The next token, if there is one, and the state after it. -/
def next? (t : Text) (s : Cursor) (html : Bool) : Option (Option Token × Cursor) :=
  (if s.ready = [] then s.refill? t html else some s).map fun s =>
    (s.ready.head?, { s with ready := s.ready.tail })

/-- A bound on the tokens that are left. -/
def size (t : Text) (s : Cursor) : Nat :=
  5 * ((bytes t).length - s.pos) + s.ready.length + 3 * s.body.toList.length

end Cursor

/-- The events of the tokens that are left. A token that leaves as much to read as there was would
let this run forever; it counts as a failure. -/
def consumeFrom? (t : Text) (b : Builder) (s : Cursor) : Option (List Event) :=
  match s.next? t b.current.isHtml with
  | none => none
  | some (none, _) => some b.finish
  | some (some k, s') =>
    if s'.size t < s.size t then (consumeFrom? t (b.push k).1 s').map ((b.push k).2 ++ ·) else none
termination_by s.size t

/-- The events of a fragment parsed as the contents of the context element. -/
def parse? (context : Element) (t : Text) : Option (List Event) :=
  consumeFrom? t { context } { pos := 0 }

/-! ## Tokens -/

section

variable {t u v : Text} {i j : Nat}

theorem At.shift (h : At t i u) (hv : At u j v) : At t (i + j) v := by
  obtain ⟨s, rfl, rfl⟩ := hv
  exact h.append

theorem At.suffix (h : At t i u) : u <:+ t := by
  obtain ⟨s, rfl, -⟩ := h
  exact List.suffix_append s u

theorem At.left (h : At t i u) : (bytes t).length - i = byteLength u := by
  rw [h.length, Nat.add_sub_cancel_left]

theorem pullFrom?_lexeme {c : Char} (h : At t i (c :: u)) (run : Text) :
    ∃ j, At t j (Lexeme.read c u).2 ∧ pullFrom? t run i = match (Lexeme.read c u).1 with
      | .text s => pullFrom? t (run ++ s) j
      | .nothing => pullFrom? t run j
      | .token k => some ((run, some k), j) := by
  obtain ⟨j, hj, hat⟩ := stands_lexemeAt? h
  have hlen := h.length
  have hpos := c.utf8Size_pos
  have hmoves := h.lt_of_length_lt hat (Nat.lt_succ_of_le (Lexeme.length_read_le c u))
  rw [Text.byteLength_cons] at hlen
  refine ⟨j, hat, ?_⟩
  rw [pullFrom?, if_pos (by omega), hj]
  dsimp only
  rw [if_pos hmoves]

theorem stands_pullFrom? (h : At t i u) (run : Text) : Stands t (pullFrom? t run i)
    ((run ++ (Scanner.pull u).1, (Scanner.pull u).2.1), (Scanner.pull u).2.2) := by
  fun_induction Scanner.pull u generalizing i run with
  | case1 =>
    have hlen := h.length
    rw [pullFrom?, if_neg (by rw [Text.byteLength_nil] at hlen; omega), List.append_nil]
    exact ⟨i, rfl, h⟩
  | case2 c cs _ s rest hread _ r token after hpull ih =>
    obtain ⟨j, hat, hstep⟩ := pullFrom?_lexeme h run
    rw [hread] at hat hstep
    rw [hpull] at ih
    rw [hstep, ← List.append_assoc]
    exact ih hat (run ++ s)
  | case3 c cs _ rest hread _ ih =>
    obtain ⟨j, hat, hstep⟩ := pullFrom?_lexeme h run
    rw [hread] at hat hstep
    rw [hstep]
    exact ih hat run
  | case4 c cs _ k rest hread =>
    obtain ⟨j, hat, hstep⟩ := pullFrom?_lexeme h run
    rw [hread] at hat hstep
    rw [hstep, List.append_nil]
    exact ⟨j, rfl, hat⟩

theorem stands_readBodyAt? {name : Text} (hname : IsAscii name) (h : At t i u) :
    Stands t (readBodyAt? name t i) (Scanner.readBody name u) := by
  rw [readBodyAt?, h.from?, Scanner.readBody]
  dsimp only
  by_cases hplain : name = "plaintext".toList
  · rw [if_pos hplain, if_pos hplain]
    exact ⟨_, rfl, At.eof t⟩
  · have hascii : ¬(name.any fun a => 128 ≤ a.toNat) = true := by
      rw [List.any_eq_true]
      rintro ⟨a, ha, hle⟩
      exact Nat.not_le_of_lt (hname a ha) (of_decide_eq_true hle)
    have hdecode (content : Text) : (if isEscapable name then decode? content else some content) =
        some (if isEscapable name then Reference.decode content else content) := by
      split
      · exact decode?_eq content
      · rfl
    obtain ⟨r, hr, hagrees⟩ := reads_closeTagFrom? hname (At.start u)
    rw [if_neg hplain, if_neg hascii, if_neg hplain, hr]
    cases hcut : Tag.cutCloseTag? name u with
    | none =>
      rw [hcut] at hagrees
      cases hagrees
      dsimp only
      rw [Option.bind_some, hdecode]
      exact ⟨_, rfl, At.eof t⟩
    | some p =>
      obtain ⟨content, rest⟩ := p
      obtain ⟨closing, rfl⟩ := Tag.prefix_of_cutCloseTag? hcut
      rw [hcut] at hagrees
      cases hagrees with
      | some hend =>
        dsimp only
        rw [Nat.zero_add, upTo?, Text.takeBytes?_append, Option.bind_some, hdecode]
        exact ⟨_, rfl, h.shift hend⟩

/-! ## Cursors -/

/-- Whether a cursor stands where a scanner does. The names of bodies are those of the vocabulary,
so they are ASCII. -/
structure Follows (t : Text) (s : Cursor) (s' : Scanner) : Prop where
  rest : At t s.pos s'.rest
  ready : s.ready = s'.ready
  body : s.body = s'.body
  ascii : ∀ name ∈ s'.body, IsAscii name

variable {s : Cursor} {s' : Scanner}

theorem Follows.start (t : Text) : Follows t { pos := 0 } { rest := t } where
  rest := At.start t
  ready := rfl
  body := rfl
  ascii _ hname := absurd hname (Option.not_mem_none _)

theorem isAscii_of_opensBody? {token : Token} {name : Text} (h : token.opensBody? = some name) :
    IsAscii name := by
  have hraw : ∀ n ∈ rawTextNames, IsAscii n := by decide
  have hescapable : ∀ n ∈ escapableNames, IsAscii n := by decide
  rcases Bool.or_eq_true_iff.1 (Token.eq_of_opensBody? h).2 with hname | hname
  · exact hraw name (of_decide_eq_true hname)
  · exact hescapable name (of_decide_eq_true hname)

theorem Follows.readPending (h : Follows t s s') (html : Bool) :
    Stands t (s.readPending? t html) (s'.readPending html) := by
  obtain ⟨hrest, -, hbody, hascii⟩ := h
  rw [Cursor.readPending?, Scanner.readPending, hbody]
  cases hname : s'.body with
  | none => exact ⟨_, rfl, hrest⟩
  | some name =>
    cases html with
    | false => exact ⟨_, rfl, hrest⟩
    | true => exact stands_readBodyAt? (hascii name hname) hrest

theorem Follows.refill (h : Follows t s s') (html : Bool) :
    ∃ r, s.refill? t html = some r ∧ Follows t r (s'.refill html) := by
  obtain ⟨i, hi, hat⟩ := h.readPending html
  rw [Cursor.refill?, Scanner.refill, hi]
  generalize s'.readPending html = p at *
  obtain ⟨_ | ⟨k, ks⟩, rest⟩ := p
  · obtain ⟨j, hj, hend⟩ := stands_pullFrom? hat []
    rw [List.nil_append] at hj
    dsimp only
    rw [hj]
    refine ⟨_, rfl, hend, rfl, rfl, ?_⟩
    intro name hname
    obtain ⟨token, -, hopens⟩ := Option.bind_eq_some_iff.1 hname
    exact isAscii_of_opensBody? hopens
  · exact ⟨_, rfl, hat, rfl, rfl, fun _ hname => absurd hname (Option.not_mem_none _)⟩

theorem Follows.tail (h : Follows t s s') : Follows t { s with ready := s.ready.tail }
    { s' with ready := s'.ready.tail } where
  rest := h.rest
  ready := congrArg List.tail h.ready
  body := h.body
  ascii := h.ascii

theorem Follows.next (h : Follows t s s') (html : Bool) :
    ∃ r, s.next? t html = some ((s'.next html).1, r) ∧ Follows t r (s'.next html).2 := by
  rw [Cursor.next?, Scanner.next, h.ready]
  split
  · obtain ⟨r, hr, hfollows⟩ := h.refill html
    rw [hr, Option.map_some, hfollows.ready]
    exact ⟨_, rfl, hfollows.ready ▸ hfollows.tail⟩
  · rw [Option.map_some, h.ready]
    exact ⟨_, rfl, h.ready ▸ h.tail⟩

theorem length_next_le (s : Scanner) (html : Bool) :
    (s.next html).2.rest.length ≤ s.rest.length := by
  rw [Scanner.next]
  dsimp only
  split
  · rw [Scanner.refill]
    split
    · next rest hpending =>
      exact Nat.le_trans (Scanner.length_pull_le rest).1 (Scanner.length_readPending hpending).1
    · next hpending => exact (Scanner.length_readPending hpending).1
  · exact Nat.le_refl _

/-- A token handed out leaves less to read: what is passed has at least as many bytes as
characters. -/
theorem Follows.size_lt {r : Cursor} {r' : Scanner} (h : Follows t s s') (hr : Follows t r r')
    (hlt : r'.size < s'.size) (hle : r'.rest.length ≤ s'.rest.length) : r.size t < s.size t := by
  obtain ⟨passed, hpassed⟩ := List.suffix_of_suffix_length_le hr.rest.suffix h.rest.suffix hle
  have hbytes := congrArg byteLength hpassed
  have hlength := congrArg List.length hpassed
  have hle := length_le_byteLength passed
  rw [Text.byteLength_append] at hbytes
  rw [List.length_append] at hlength
  rw [Scanner.size, Scanner.size, ← hr.ready, ← h.ready, ← hr.body, ← h.body] at hlt
  rw [Cursor.size, Cursor.size, hr.rest.left, h.rest.left]
  omega

theorem consumeFrom?_eq (b : Builder) (h : Follows t s s') :
    consumeFrom? t b s = some (b.consume s') := by
  fun_induction Builder.consume b s' generalizing s with
  | case1 b s' k next hnext hlt b' events hpush ih =>
    obtain ⟨r, hr, hfollows⟩ := h.next b.current.isHtml
    have hle := length_next_le s' b.current.isHtml
    rw [hnext] at hr hfollows hle
    rw [consumeFrom?, hr]
    dsimp only
    rw [if_pos (h.size_lt hfollows hlt hle), hpush, ih hfollows, Option.map_some]
  | case2 b s' next hnext =>
    obtain ⟨r, hr, -⟩ := h.next b.current.isHtml
    rw [hnext] at hr
    rw [consumeFrom?, hr]

/-- **Parsing a fragment by bytes never fails**, and tells what parsing by characters does. -/
theorem parse?_eq (context : Element) (t : Text) : parse? context t = some (Html.parse context t) :=
  consumeFrom?_eq { context } (Follows.start t)

end

end Stencil.Bytes
