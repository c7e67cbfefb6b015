import Stencil.Css.Sanitize
import Stencil.Proofs.Bytes.Reference
import Stencil.Proofs.Stash.Markers

/-!
# Searches by bytes

What cuts a text where a search found something: the markers of stored pieces, the comment that a
style ends in, and the first angle bracket. A search gives the position of a whole needle, so the
slices before it and after it have answers (`find?_cases`).
-/

namespace Stencil.Bytes

open Text (bytes byteLength)

theorem find?_cases (needle t : Text) :
    (Text.cut? needle t = none ∧ find? needle t = none) ∨
      ∃ before after, Text.cut? needle t = some (before, after) ∧
        find? needle t = some (byteLength before) ∧ upTo? t (byteLength before) = some before ∧
          from? t (byteLength before + byteLength needle) = some after := by
  cases hcut : Text.cut? needle t with
  | none => exact .inl ⟨rfl, by rw [find?, hcut, Option.map_none]⟩
  | some p =>
    obtain ⟨before, after⟩ := p
    have ht := Text.eq_of_cut? hcut
    refine .inr ⟨before, after, rfl, by rw [find?, hcut, Option.map_some], ?_, ?_⟩
    · rw [ht, List.append_assoc]
      exact Text.takeBytes?_append before (needle ++ after)
    · rw [ht, ← Text.byteLength_append]
      exact Text.dropBytes?_append (before ++ needle) after

/-! ## Stored pieces -/

/-- Reads the rest of a marker after its start: the piece it stands for, and the text after it. -/
def readMarker? (s : Stash) (t : Text) : Option (Option (Text × Text)) :=
  match find? Stash.tail t with
  | none => some none
  | some n =>
    match upTo? t n with
    | none => none
    | some digits =>
      match (Stash.number? digits).bind fun n => s.items[n]? with
      | none => some none
      | some item =>
        (from? t (n + byteLength Stash.tail)).map fun after => some (item, after)

/-- Replaces the markers of stored pieces, from left to right. A marker that leaves as much text as
there was would be read forever; it counts as a failure. -/
def resolveOnce? (s : Stash) (t : Text) : Option Text :=
  match find? Stash.head t with
  | none => some t
  | some n =>
    match upTo? t n, from? t (n + byteLength Stash.head) with
    | some before, some rest =>
      match readMarker? s rest with
      | none => none
      | some none =>
        if rest.length < t.length then
          (resolveOnce? s rest).map (before ++ Stash.head ++ ·)
        else none
      | some (some (item, after)) =>
        if after.length < t.length then (resolveOnce? s after).map (before ++ item ++ ·) else none
    | _, _ => none
termination_by t.length

/-- Replaces markers until nothing changes, at most `n` times. -/
def resolveWithin? (s : Stash) : Nat → Text → Option Text
  | 0, t => some t
  | n + 1, t => (resolveOnce? s t).bind fun u => if u = t then some t else resolveWithin? s n u

/-- The text with every marker of a stored piece replaced by it. -/
def resolve? (s : Stash) (t : Text) : Option Text := resolveWithin? s Stash.maxPasses t

section

variable (s : Stash)

theorem readMarker?_eq (t : Text) : readMarker? s t = some (s.read? t) := by
  rw [readMarker?, Stash.read?]
  rcases find?_cases Stash.tail t with ⟨hcut, hfind⟩ | ⟨digits, after, hcut, hfind, hup, hfrom⟩
  · rw [hcut, hfind]
    rfl
  · rw [hcut, hfind]
    dsimp only
    rw [hup, hfrom]
    dsimp only [Option.bind_eq_bind, Option.bind_some]
    cases Stash.number? digits with
    | none => rfl
    | some n =>
      rw [Option.bind_some, Option.bind_some]
      cases s.items[n]? <;> rfl

/-- **Replacing markers by bytes never fails**, and replaces what replacing by characters does. -/
theorem resolveOnce?_eq (t : Text) : resolveOnce? s t = some (s.resolveOnce t) := by
  induction hn : t.length using Nat.strongRecOn generalizing t with
  | ind n ih =>
    subst hn
    rw [resolveOnce?]
    rcases find?_cases Stash.head t with ⟨hcut, hfind⟩ | ⟨before, rest, hcut, hfind, hup, hfrom⟩
    · rw [hfind, s.resolveOnce_of_cut?_none hcut]
    · have hlen := Text.length_of_cut? hcut
      have hhead := Stash.head_length_pos
      rw [hfind, s.resolveOnce_of_cut? hcut]
      dsimp only
      rw [hup, hfrom]
      dsimp only
      rw [readMarker?_eq]
      cases hread : s.read? rest with
      | none =>
        dsimp only
        rw [if_pos (by omega), ih rest.length (by omega) rest rfl, Option.map_some,
          List.append_assoc]
      | some p =>
        obtain ⟨item, after⟩ := p
        have hshort := Stash.length_of_read? hread
        dsimp only
        rw [if_pos (by omega), ih after.length (by omega) after rfl, Option.map_some,
          List.append_assoc]

theorem resolveWithin?_eq (n : Nat) (t : Text) :
    resolveWithin? s n t = some (s.resolveWithin n t) := by
  induction n generalizing t with
  | zero => rfl
  | succ n ih =>
    rw [resolveWithin?, resolveOnce?_eq, Option.bind_some, Stash.resolveWithin]
    split
    · rfl
    · exact ih _

theorem resolve?_eq (t : Text) : resolve? s t = some (s.resolve t) := resolveWithin?_eq s _ t

end

/-! ## Styles -/

/-- The normal form of a style. -/
def normalize? (t : Text) : Option Text :=
  match decode? t with
  | none => none
  | some decoded =>
    match find? Css.commentStart (Css.dropComments (Css.unescape decoded)) with
    | some n => upTo? (Css.dropComments (Css.unescape decoded)) n
    | none => some (Css.dropComments (Css.unescape decoded))

/-- What is written for a style whose whole text comes from a value. -/
def sanitize? (t : Text) : Option Text :=
  (normalize? t).map fun style =>
    if style.any Css.isControl then Css.Verdict.controlCharacterText
    else if Css.isForbidden style then Css.Verdict.insecureText
    else style

theorem normalize?_eq (t : Text) : normalize? t = some (Css.normalize t) := by
  rw [normalize?, decode?_eq, Css.normalize, Css.beforeComment]
  dsimp only
  rcases find?_cases Css.commentStart (Css.dropComments (Css.unescape (Html.Reference.decode t)))
    with ⟨hcut, hfind⟩ | ⟨before, after, hcut, hfind, hup, -⟩
  · rw [hcut, hfind]
  · rw [hcut, hfind]
    exact hup

theorem sanitize?_eq (t : Text) : sanitize? t = some (Css.sanitize t) := by
  rw [sanitize?, normalize?_eq, Option.map_some, Css.sanitize, Css.judge]
  split
  · rfl
  · split <;> rfl

/-! ## Angle brackets -/

/-- Whether a character is an angle bracket. -/
def isAngle (c : Char) : Bool := c = '<' || c = '>'

/-- Escapes angle brackets, from the first one on. -/
def escapeAngles? (t : Text) : Option Text :=
  match seek? isAngle (bytes t) with
  | none => some t
  | some n =>
    match upTo? t n, from? t n with
    | some before, some rest => some (before ++ Html.escapeAngles rest)
    | _, _ => none

theorem asciiOnly_isAngle : AsciiOnly isAngle :=
  .or asciiOnly_eq asciiOnly_eq

theorem escapeAngles_of_not_angle {t : Text} (h : ∀ c ∈ t, isAngle c = false) :
    Html.escapeAngles t = t :=
  Html.escapeAngles_of_not_mem (fun hopen => absurd (h '<' hopen) (by decide))
    fun hclose => absurd (h '>' hclose) (by decide)

theorem escapeAngles?_eq (t : Text) : escapeAngles? t = some (Html.escapeAngles t) := by
  have hplain : ∀ c ∈ t.takeWhile (fun c => !isAngle c), isAngle c = false := by
    intro c hc
    simpa using Text.of_mem_takeWhile hc
  have hsplit : t.takeWhile (fun c => !isAngle c) ++ t.dropWhile (fun c => !isAngle c) = t :=
    List.takeWhile_append_dropWhile
  have hup := Text.takeBytes?_append (t.takeWhile fun c => !isAngle c)
    (t.dropWhile fun c => !isAngle c)
  have hfrom := Text.dropBytes?_append (t.takeWhile fun c => !isAngle c)
    (t.dropWhile fun c => !isAngle c)
  have hescaped : Html.escapeAngles t = t.takeWhile (fun c => !isAngle c) ++
      Html.escapeAngles (t.dropWhile fun c => !isAngle c) := by
    have happend := Html.escapeAngles_append (t.takeWhile fun c => !isAngle c)
      (t.dropWhile fun c => !isAngle c)
    rwa [hsplit, escapeAngles_of_not_angle hplain] at happend
  rw [hsplit] at hup hfrom
  rw [escapeAngles?, seek?_bytes asciiOnly_isAngle, hescaped]
  cases hrest : t.dropWhile (fun c => !isAngle c) with
  | nil =>
    rw [hrest, List.append_nil] at hsplit
    rw [hsplit]
    exact congrArg some (List.append_nil t).symm
  | cons c rest =>
    dsimp only
    rw [upTo?, hup, from?, hfrom, hrest]

end Stencil.Bytes
