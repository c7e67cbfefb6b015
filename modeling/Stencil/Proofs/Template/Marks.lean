import Stencil.Template.Parse

/-!
# Marks of a text

One equation for each way in which `marks` reads the front of a text: a character by itself, a bar,
three braces that are a sign, and braces that are characters because there are too few or too many
of them. So a name without signs between the braces of a placeholder is parsed as a placeholder of
that name (`parse_placeholder`).
-/

namespace Stencil.Template

/-- Whether a character means something in a template. -/
def isSign (c : Char) : Bool := c = '\x7b' || c = '|' || c = '\x7d'

theorem isSign_iff {c : Char} : isSign c = true ↔ c = '\x7b' ∨ c = '|' ∨ c = '\x7d' := by
  simp [isSign, or_assoc]

/-- Without a sign. -/
def Signless (t : Text) : Prop := ∀ c ∈ t, isSign c = false

instance : DecidablePred Signless := fun t =>
  decidable_of_iff (t.any isSign = false) (by simp [Signless])

theorem marks_char {c : Char} (hopening : c ≠ '\x7b') (hclosing : c ≠ '\x7d') (hbar : c ≠ '|')
    (cs : Text) : marks (c :: cs) = .char c :: marks cs := by
  rw [marks, if_neg (by simp [hopening]), if_neg (by simp [hclosing]), if_neg hbar]

theorem marks_plain {s : Text} (hs : Signless s) (t : Text) :
    marks (s ++ t) = s.map .char ++ marks t := by
  induction s with
  | nil => rfl
  | cons c s ih =>
    obtain ⟨hc, hs⟩ := List.forall_mem_cons.1 hs
    have hnot : ¬(c = '\x7b' ∨ c = '|' ∨ c = '\x7d') := by
      rw [← isSign_iff, hc]
      exact Bool.false_ne_true
    simp only [not_or] at hnot
    rw [List.cons_append, marks_char hnot.1 hnot.2.2 hnot.2.1, ih hs, List.map_cons,
      List.cons_append]

theorem marks_bar (cs : Text) : marks ('|' :: cs) = .bar :: marks cs := by
  rw [marks, if_neg (by simp), if_neg (by simp), if_pos rfl]

/-- The first of more than three opening braces is a character. -/
theorem marks_more (v : Text) : marks ('\x7b' :: '\x7b' :: '\x7b' :: '\x7b' :: v) =
    .char '\x7b' :: marks ('\x7b' :: '\x7b' :: '\x7b' :: v) := by
  rw [marks, if_neg (by simp), if_neg (by simp), if_neg (by decide)]

/-- In a run of opening braces all but the last three are characters. -/
theorem marks_surplus (n : Nat) {v : Text} (hv : v.head? ≠ some '\x7b') :
    marks (List.replicate (n + 3) '\x7b' ++ v) =
      List.replicate n (.char '\x7b') ++ .opening :: marks v := by
  induction n with
  | zero =>
    have hlast : ('\x7b' :: '\x7b' :: v)[2]? = v.head? := by
      rw [List.getElem?_cons_succ, List.getElem?_cons_succ, List.head?_eq_getElem?]
    change marks ('\x7b' :: '\x7b' :: '\x7b' :: v) = .opening :: marks v
    rw [marks, hlast, if_pos (by simpa using hv)]
    rfl
  | succ n ih =>
    exact (marks_more (List.replicate n '\x7b' ++ v)).trans (congrArg _ ih)

theorem marks_few {cs : Text} (h : opening.isPrefixOf ('\x7b' :: cs) = false) :
    marks ('\x7b' :: cs) = .char '\x7b' :: marks cs := by
  have hstarts : ['\x7b', '\x7b'].isPrefixOf cs = false := h
  rw [marks, hstarts, if_neg (by simp), if_neg (by simp), if_neg (by decide)]

theorem marks_closing (v : Text) : marks (closing ++ v) = .closing :: marks v := by
  change marks ('\x7d' :: '\x7d' :: '\x7d' :: v) = _
  rw [marks, if_neg (by simp), if_pos (by simp)]
  rfl

theorem marks_not_closing {cs : Text} (h : closing.isPrefixOf ('\x7d' :: cs) = false) :
    marks ('\x7d' :: cs) = .char '\x7d' :: marks cs := by
  have hstarts : ['\x7d', '\x7d'].isPrefixOf cs = false := h
  rw [marks, hstarts, if_neg (by simp), if_neg (by simp), if_neg (by decide)]

/-! ## One placeholder -/

theorem Reader.foldl_say (t : Text) (r : Reader) : (t.map Mark.char).foldl step r = r.say t := by
  induction t generalizing r with
  | nil => rfl
  | cons c t ih => exact ih (r.say [c])

/-- A placeholder of a name. -/
def placeholder (name : Text) : Text := opening ++ name ++ closing

theorem parse_placeholder {name : Text} (h : Signless name) :
    parse (placeholder name) = .slot (ofText name) .nil := by
  have hhead : (name ++ closing).head? ≠ some '\x7b' := by
    cases name with
    | nil => decide
    | cons c name =>
      rintro hc
      rw [Option.some.inj hc] at h
      exact absurd (h _ List.mem_cons_self) (by decide)
  have hclosing : marks closing = [.closing] := by decide +kernel
  have hmarks : marks (placeholder name) = .opening :: (name.map .char ++ [.closing]) := by
    rw [placeholder, List.append_assoc]
    refine (marks_surplus 0 hhead).trans (congrArg _ ?_)
    rw [marks_plain h, hclosing]
  have hopen : Reader.step {} .opening = { stack := [{}] } := by
    rw [Reader.step, if_pos (by decide : ([] : List OpenSlot).length < maxNesting)]
    rfl
  have hread : ((marks (placeholder name)).foldl Reader.step {}) =
      Reader.step { stack := [{}], run := name.reverse } .closing := by
    rw [hmarks, List.foldl_cons, hopen, List.foldl_append, Reader.foldl_say, Reader.say,
      List.reverseAux_eq, List.append_nil]
    rfl
  have hclosed : Reader.step { stack := [{}], run := name.reverse } .closing =
      { root := .slot (ofText name) .nil } := by
    simp only [Reader.step, Reader.flush, Reader.add, List.reverse_reverse]
    rfl
  rw [parse, hread, hclosed, Reader.finish]
  exact Reader.collapse.eq_1 _

theorem expand_ofText (b : Bindings) (t : Text) : (ofText t).expand b = t := by
  unfold ofText
  split
  · next h =>
    rw [h]
    rfl
  · rw [expand, expand, List.append_nil]

theorem expand_placeholder (b : Bindings) {name : Text} (h : Signless name) :
    (parse (placeholder name)).expand b = (b.get? (Text.trim name)).getD (placeholder name) := by
  rw [parse_placeholder h, expand, expand_ofText, expand, List.append_nil]
  rfl

end Stencil.Template
