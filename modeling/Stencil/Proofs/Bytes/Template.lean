import Stencil.Proofs.Bytes.Position
import Stencil.Proofs.Template.Marks

/-!
# Templates by bytes

A template read in one pass over the bytes of its text. Nothing is added while text is read: the
reader knows where the text starts that it has not added yet, and cuts it out when a sign ends it.
That is the one place where it has a slice of the text, and both ends of it stand before or after a
brace or a bar (`templateFrom?_eq`).
-/

namespace Stencil.Bytes

open Text (bytes byteLength)
open Template

/-- Whether the text from position `i` on starts with another. -/
def startsAt? (s t : Text) (i : Nat) : Option Bool := (from? t i).map fun rest => s.isPrefixOf rest

/-- Reads one mark after the text between two positions. -/
def markAfter? (t : Text) (start i : Nat) (mark : Mark) (r : Reader) : Option Reader :=
  (range? t start i).map fun text => { r with run := text.reverse }.step mark

/-- Reads from position `i` on, where the text from `start` on is not added yet. -/
def templateFrom? (t : Text) (i start : Nat) (r : Reader) : Option Template :=
  if i < (bytes t).length then
    match (bytes t)[i]? with
    | none => none
    | some b =>
      if is (· = '\x7b') b then
        match startsAt? opening t i with
        | none => none
        | some starts =>
          if starts && r.stack.length < maxNesting then
            let e := skipWhile (· = '\x7b') (bytes t) i
            if i + 3 ≤ e then
              (markAfter? t start (e - 3) .opening r).bind (templateFrom? t e e)
            else none
          else templateFrom? t (i + 1) start r
      else if is (· = '|') b && r.stack ≠ [] then
        (markAfter? t start i .bar r).bind (templateFrom? t (i + 1) (i + 1))
      else if is (· = '\x7d') b && r.stack ≠ [] then
        match startsAt? closing t i with
        | none => none
        | some true => (markAfter? t start i .closing r).bind (templateFrom? t (i + 3) (i + 3))
        | some false => templateFrom? t (i + 1) start r
      else templateFrom? t (i + 1) start r
  else (from? t start).map fun text => { r with run := text.reverse }.finish
termination_by (bytes t).length - i
decreasing_by all_goals omega

/-- The template that a text stands for. -/
def parseTemplate? (t : Text) : Option Template := templateFrom? t 0 0 {}

/-! ## Reading marks -/

/-- The reader after a text. -/
def readAll (r : Reader) (u : Text) : Reader := (marks u).foldl Reader.step r

variable {r : Reader} {c : Char} {cs u v w : Text}

theorem readAll_nil (r : Reader) : readAll r [] = r := by
  rw [readAll, marks, List.foldl_nil]

theorem say_append (r : Reader) (w v : Text) :
    { r with run := w.reverse }.say v = { r with run := (w ++ v).reverse } := by
  rw [Reader.say, List.reverseAux_eq, List.reverse_append]

theorem readAll_char (h : marks (c :: cs) = .char c :: marks cs) (w : Text) :
    readAll { r with run := w.reverse } (c :: cs) =
      readAll { r with run := (w ++ [c]).reverse } cs := by
  rw [readAll, h, List.foldl_cons, Reader.step, say_append]
  rfl

theorem readAll_full (h : ¬r.stack.length < maxNesting) (w : Text) :
    readAll { r with run := w.reverse } ('\x7b' :: cs) =
      readAll { r with run := (w ++ ['\x7b']).reverse } cs := by
  cases hstarts : opening.isPrefixOf ('\x7b' :: cs) with
  | false => exact readAll_char (marks_few hstarts) w
  | true =>
    obtain ⟨v, hv⟩ := List.isPrefixOf_iff_prefix.1 hstarts
    obtain rfl : '\x7b' :: '\x7b' :: v = cs := (List.cons.inj hv).2
    by_cases hfourth : v.head? = some '\x7b'
    · obtain ⟨v, rfl⟩ := List.head?_eq_some_iff.1 hfourth
      exact readAll_char (marks_more v) w
    · have hfew (x : Text) (hx : x = v ∨ x = '\x7b' :: v) :
          marks ('\x7b' :: x) = .char '\x7b' :: marks x := by
        refine marks_few (Bool.eq_false_iff.2 fun hopen => ?_)
        obtain ⟨y, hy⟩ := List.isPrefixOf_iff_prefix.1 hopen
        have htail := (List.cons.inj hy).2
        rcases hx with rfl | rfl
        · exact hfourth (htail ▸ rfl)
        · exact hfourth ((List.cons.inj htail).2 ▸ rfl)
      have hstep : { r with run := w.reverse }.step .opening =
          { r with run := (w ++ opening).reverse } := by
        rw [← say_append]
        exact if_neg h
      have hmarks : marks ('\x7b' :: '\x7b' :: '\x7b' :: v) = .opening :: marks v :=
        marks_surplus 0 hfourth
      rw [readAll_char (hfew _ (.inr rfl)), readAll_char (hfew _ (.inl rfl)), List.append_assoc,
        List.append_assoc, readAll, hmarks]
      exact congrArg (readAll · v) hstep

theorem readAll_bar_outside (h : r.stack = []) (w : Text) :
    readAll { r with run := w.reverse } ('|' :: cs) =
      readAll { r with run := (w ++ ['|']).reverse } cs := by
  rw [readAll, marks_bar, List.foldl_cons, Reader.step, Reader.flush, Reader.add, h]
  dsimp only
  rw [← h, say_append]
  rfl

theorem readAll_outside (h : r.stack = []) (w : Text) :
    readAll { r with run := w.reverse } ('\x7d' :: cs) =
      readAll { r with run := (w ++ ['\x7d']).reverse } cs := by
  induction hn : cs.length using Nat.strongRecOn generalizing cs w with
  | ind n ih =>
    subst hn
    cases hstarts : closing.isPrefixOf ('\x7d' :: cs) with
    | false => exact readAll_char (marks_not_closing hstarts) w
    | true =>
      obtain ⟨v, hv⟩ := List.isPrefixOf_iff_prefix.1 hstarts
      obtain rfl : '\x7d' :: '\x7d' :: v = cs := (List.cons.inj hv).2
      have hstep : { r with run := w.reverse }.step .closing =
          { r with run := (w ++ closing).reverse } := by
        rw [← say_append, Reader.step, Reader.flush, Reader.add, h]
      have hmarks : marks ('\x7d' :: '\x7d' :: '\x7d' :: v) = .closing :: marks v := marks_closing v
      have hsecond := ih (v.length + 1) (Nat.lt_succ_self _) (w ++ ['\x7d'])
        (show ('\x7d' :: v).length = v.length + 1 from rfl)
      have hthird := ih v.length (Nat.lt_succ_of_lt (Nat.lt_succ_self _))
        (w ++ ['\x7d'] ++ ['\x7d']) (show v.length = v.length from rfl)
      rw [hsecond, hthird, List.append_assoc, List.append_assoc, readAll, hmarks]
      exact congrArg (readAll · v) hstep

theorem readAll_surplus (n : Nat) (hv : v.head? ≠ some '\x7b') (w : Text) :
    readAll { r with run := w.reverse } (List.replicate (n + 3) '\x7b' ++ v) =
      readAll ({ r with run := (w ++ List.replicate n '\x7b').reverse }.step .opening) v := by
  rw [readAll, marks_surplus n hv, List.foldl_append, List.foldl_cons, readAll]
  congr 2
  induction n generalizing w with
  | zero => rw [List.replicate_zero, List.replicate_zero, List.append_nil]; rfl
  | succ n ih =>
    rw [List.replicate_succ, List.foldl_cons, Reader.step, say_append, ih, List.replicate_succ,
      List.append_assoc, List.singleton_append]

/-! ## Reading bytes -/

section

variable {t : Text} {i start : Nat}

theorem At.startsAt? (h : At t i u) (s : Text) : startsAt? s t i = some (s.isPrefixOf u) := by
  rw [Bytes.startsAt?, h.from?, Option.map_some]

theorem At.markAfter? (h : At t start (w ++ u)) (mark : Mark) (r : Reader) :
    markAfter? t start (start + byteLength w) mark r =
      some ({ r with run := w.reverse }.step mark) := by
  rw [Bytes.markAfter?, h.range?, Option.map_some]

theorem run_step_opening (h : r.stack.length < maxNesting) (w : Text) :
    ({ r with run := w }.step .opening).run = [] := by
  rw [Reader.step, if_pos h]
  rfl

theorem run_step_bar (h : r.stack ≠ []) (w : Text) : ({ r with run := w }.step .bar).run = [] := by
  obtain ⟨s, outer, hs⟩ := List.exists_cons_of_ne_nil
    (Reader.stack_flush_ne_nil (r := { r with run := w }) h)
  rw [Reader.step, hs]
  rfl

theorem run_step_closing (h : r.stack ≠ []) (w : Text) :
    ({ r with run := w }.step .closing).run = [] := by
  obtain ⟨s, outer, hs⟩ := List.exists_cons_of_ne_nil
    (Reader.stack_flush_ne_nil (r := { r with run := w }) h)
  rw [Reader.step, hs]
  dsimp only
  rw [Reader.run_add]
  rfl

theorem asciiOnly_isSign : AsciiOnly isSign :=
  .or (.or asciiOnly_eq asciiOnly_eq) asciiOnly_eq

/-- Opening braces that start a placeholder: all of the run, of which there are at least three. -/
theorem eq_of_opening (h : opening.isPrefixOf u = true) :
    ∃ n v, u = List.replicate (n + 3) '\x7b' ++ v ∧ v.head? ≠ some '\x7b' := by
  have hrun : u.takeWhile (· = '\x7b') =
      List.replicate (u.takeWhile (· = '\x7b')).length '\x7b' :=
    List.eq_replicate_iff.2 ⟨rfl, fun c hc => by simpa using Text.of_mem_takeWhile hc⟩
  have hlong : 3 ≤ (u.takeWhile (· = '\x7b')).length := by
    obtain ⟨v, rfl⟩ := List.isPrefixOf_iff_prefix.1 h
    rw [List.takeWhile_append_of_pos fun c hc => by simpa [opening] using hc, List.length_append]
    exact Nat.le_add_right _ _
  refine ⟨(u.takeWhile (· = '\x7b')).length - 3, u.dropWhile (· = '\x7b'), ?_, ?_⟩
  · rw [Nat.sub_add_cancel hlong, ← hrun, List.takeWhile_append_dropWhile]
  · intro hhead
    have hnot := List.head?_dropWhile_not (p := (· = '\x7b')) u
    rw [hhead] at hnot
    exact absurd hnot (by decide)

theorem byteLength_braces (n : Nat) : byteLength (List.replicate n '\x7b') = n := by
  have hascii : IsAscii (List.replicate n '\x7b') := by
    intro c hc
    rw [List.eq_of_mem_replicate hc]
    decide
  rw [byteLength_of_ascii hascii, List.length_replicate]

theorem At.skipBraces {n : Nat} (h : At t i (List.replicate n '\x7b' ++ v))
    (hv : v.head? ≠ some '\x7b') : Bytes.skipWhile (· = '\x7b') (bytes t) i = i + n := by
  have hstop : v.head?.all (fun c => !decide (c = '\x7b')) = true := by
    cases v with
    | nil => rfl
    | cons c v => simpa using hv
  rw [h.skipWhile asciiOnly_eq,
    Text.takeWhile_run (fun c hc => by simpa using List.eq_of_mem_replicate hc) hstop,
    byteLength_braces]

theorem templateFrom?_end (h : At t i []) :
    templateFrom? t i start r =
      (from? t start).map fun text => { r with run := text.reverse }.finish := by
  have hlen := h.length
  rw [Text.byteLength_nil] at hlen
  rw [templateFrom?, if_neg (by omega)]

theorem templateFrom?_cons (h : At t i (c :: cs)) : templateFrom? t i start r =
    if c = '\x7b' then
      if opening.isPrefixOf (c :: cs) && r.stack.length < maxNesting then
        if i + 3 ≤ skipWhile (· = '\x7b') (bytes t) i then
          (markAfter? t start (skipWhile (· = '\x7b') (bytes t) i - 3) .opening r).bind
            (templateFrom? t (skipWhile (· = '\x7b') (bytes t) i)
              (skipWhile (· = '\x7b') (bytes t) i))
        else none
      else templateFrom? t (i + 1) start r
    else if c = '|' ∧ r.stack ≠ [] then
      (markAfter? t start i .bar r).bind (templateFrom? t (i + 1) (i + 1))
    else if c = '\x7d' ∧ r.stack ≠ [] then
      if closing.isPrefixOf (c :: cs) then
        (markAfter? t start i .closing r).bind (templateFrom? t (i + 3) (i + 3))
      else templateFrom? t (i + 1) start r
    else templateFrom? t (i + 1) start r := by
  have hlen := h.length
  have hpos := c.utf8Size_pos
  obtain ⟨b, hb, his⟩ := h.get?_cons
  rw [Text.byteLength_cons] at hlen
  rw [templateFrom?, if_pos (by omega), hb]
  dsimp only
  rw [his _ asciiOnly_eq, his _ asciiOnly_eq,
    his _ asciiOnly_eq, h.startsAt?, h.startsAt?]
  simp only [Bool.and_eq_true, decide_eq_true_iff]
  cases closing.isPrefixOf (c :: cs) <;> rfl

/-- A character that ends nothing is passed, and left to the text that is cut out later. -/
theorem templateFrom?_pass (h : At t i (c :: cs)) (hsign : isSign c = false) :
    templateFrom? t i start r = templateFrom? t (i + c.utf8Size) start r := by
  refine h.pass (f := fun j => templateFrom? t j start r) asciiOnly_isSign hsign fun j b hb hc => ?_
  rw [is, isSign, Bool.or_eq_false_iff, Bool.or_eq_false_iff] at hc
  obtain ⟨⟨hopening, hbar⟩, hclosing⟩ := hc
  rw [templateFrom?, if_pos (List.getElem?_eq_some_iff.1 hb).1, hb]
  dsimp only
  rw [is, hopening, is, hbar, is, hclosing]
  rfl

theorem templateFrom?_opening {n : Nat}
    (h : At t start (w ++ (List.replicate (n + 3) '\x7b' ++ v))) (hv : v.head? ≠ some '\x7b')
    (hdeep : r.stack.length < maxNesting) :
    templateFrom? t (start + byteLength w) start r =
      templateFrom? t (start + byteLength w + (n + 3)) (start + byteLength w + (n + 3))
        ({ r with run := (w ++ List.replicate n '\x7b').reverse }.step .opening) := by
  have hskip := h.append.skipBraces hv
  have hcut : start + byteLength w + (n + 3) - 3 =
      start + byteLength (w ++ List.replicate n '\x7b') := by
    rw [Text.byteLength_append, byteLength_braces]
    omega
  have hbraces : At t start (w ++ List.replicate n '\x7b' ++ (opening ++ v)) := by
    rw [← List.replicate_append_replicate, List.append_assoc, ← List.append_assoc] at h
    exact h
  have hopen : (opening.isPrefixOf ('\x7b' :: (List.replicate (n + 2) '\x7b' ++ v)) &&
      r.stack.length < maxNesting) = true := decide_eq_true hdeep
  have hat : At t (start + byteLength w) ('\x7b' :: (List.replicate (n + 2) '\x7b' ++ v)) :=
    h.append
  rw [templateFrom?_cons hat, if_pos rfl, if_pos hopen, hskip, if_pos (by omega), hcut,
    hbraces.markAfter?, Option.bind_some]

theorem templateFrom?_bar (h : At t start (w ++ '|' :: cs)) (hstack : r.stack ≠ []) :
    templateFrom? t (start + byteLength w) start r =
      templateFrom? t (start + byteLength w + 1) (start + byteLength w + 1)
        ({ r with run := w.reverse }.step .bar) := by
  rw [templateFrom?_cons h.append, if_neg (by decide), if_pos ⟨rfl, hstack⟩, h.markAfter?,
    Option.bind_some]

theorem templateFrom?_closing (h : At t start (w ++ (closing ++ v))) (hstack : r.stack ≠ []) :
    templateFrom? t (start + byteLength w) start r =
      templateFrom? t (start + byteLength w + 3) (start + byteLength w + 3)
        ({ r with run := w.reverse }.step .closing) := by
  have hclosing : At t (start + byteLength w) ('\x7d' :: '\x7d' :: '\x7d' :: v) := h.append
  rw [templateFrom?_cons hclosing, if_neg (by decide), if_neg (by simp), if_pos ⟨rfl, hstack⟩,
    if_pos (by simp [closing]), h.markAfter?, Option.bind_some]

/-- **A template is read by bytes as by characters.** -/
theorem templateFrom?_eq (h : At t start (w ++ u)) (r : Reader) :
    templateFrom? t (start + byteLength w) start r =
      some (readAll { r with run := w.reverse } u).finish := by
  induction hn : u.length using Nat.strongRecOn generalizing u w start r with
  | ind n ih =>
    subst hn
    have hat := h.append
    cases u with
    | nil =>
      rw [templateFrom?_end hat, h.from?, List.append_nil, readAll_nil]
      rfl
    | cons c cs =>
      -- A character that ends nothing is left to the text that is cut out later.
      have hnext (hread : readAll { r with run := w.reverse } (c :: cs) =
            readAll { r with run := (w ++ [c]).reverse } cs) :
          templateFrom? t (start + byteLength w + c.utf8Size) start r =
            some (readAll { r with run := w.reverse } (c :: cs)).finish := by
        have happend : At t start (w ++ [c] ++ cs) := by rwa [List.append_assoc]
        have hrest := ih cs.length (Nat.lt_succ_self _) happend r rfl
        rwa [Text.byteLength_append, ← Nat.add_assoc, ← hread] at hrest
      -- After a sign the reader goes on without a text.
      have hresume {j : Nat} {v : Text} (hv : At t j v) (hshort : v.length < (c :: cs).length)
          {r' : Reader} (hrun : r'.run = []) :
          templateFrom? t j j r' = some (readAll r' v).finish := by
        have hrest := ih v.length hshort (w := []) hv r' rfl
        obtain ⟨root, stack, run⟩ := r'
        cases hrun
        exact hrest
      by_cases hopening : c = '\x7b'
      · subst hopening
        by_cases hdeep : r.stack.length < maxNesting
        · cases hstarts : opening.isPrefixOf ('\x7b' :: cs) with
          | false =>
            rw [templateFrom?_cons hat, if_pos rfl, if_neg (by simp [hstarts])]
            exact hnext (readAll_char (marks_few hstarts) w)
          | true =>
            obtain ⟨n, v, hu, hv⟩ := eq_of_opening hstarts
            rw [hu] at h hat hresume ⊢
            have hend := hat.append
            rw [byteLength_braces] at hend
            rw [templateFrom?_opening h hv hdeep, readAll_surplus n hv]
            exact hresume hend (by simp) (run_step_opening hdeep _)
        · rw [templateFrom?_cons hat, if_pos rfl, if_neg (by simp [hdeep])]
          exact hnext (readAll_full hdeep w)
      · by_cases hbar : c = '|'
        · subst hbar
          by_cases hstack : r.stack = []
          · rw [templateFrom?_cons hat, if_neg (by simp), if_neg (by simp [hstack]),
              if_neg (by simp [hstack])]
            exact hnext (readAll_bar_outside hstack w)
          · rw [templateFrom?_bar h hstack, readAll, marks_bar]
            exact hresume hat.tail_ascii (Nat.lt_succ_self _) (run_step_bar hstack _)
        · by_cases hclosing : c = '\x7d'
          · subst hclosing
            by_cases hstack : r.stack = []
            · rw [templateFrom?_cons hat, if_neg (by simp), if_neg (by simp),
                if_neg (by simp [hstack])]
              exact hnext (readAll_outside hstack w)
            · cases hstarts : closing.isPrefixOf ('\x7d' :: cs) with
              | false =>
                rw [templateFrom?_cons hat, if_neg (by simp), if_neg (by simp),
                  if_pos ⟨rfl, hstack⟩, if_neg (by simp [hstarts])]
                exact hnext (readAll_char (marks_not_closing hstarts) w)
              | true =>
                obtain ⟨v, hv⟩ := List.isPrefixOf_iff_prefix.1 hstarts
                rw [← hv] at h hat hresume ⊢
                have hshort : v.length < (closing ++ v).length := by
                  rw [List.length_append]
                  exact Nat.lt_add_of_pos_left (by decide)
                rw [templateFrom?_closing h hstack, readAll, marks_closing]
                exact hresume hat.append hshort (run_step_closing hstack _)
          · rw [templateFrom?_pass hat (by simp [isSign, hopening, hbar, hclosing])]
            exact hnext (readAll_char (marks_char hopening hclosing hbar cs) w)

end

/-- **Parsing a template by bytes never fails**, and reads what parsing by characters does. -/
theorem parseTemplate?_eq (t : Text) : parseTemplate? t = some (Template.parse t) := by
  have hstart := templateFrom?_eq (w := []) (At.start t) {}
  exact hstart

end Stencil.Bytes
