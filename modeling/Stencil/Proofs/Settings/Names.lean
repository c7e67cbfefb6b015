import Stencil.Proofs.Html.Stream
import Stencil.Settings

/-!
# Names in settings

Settings are checked so that the names in them can match what the scanner reads. A name that is let
through holds no sign that ends a name, and no capital letter. As the name of an attribute it is
always read (`tokenize_attribute`). As the name of an element it is read only if it starts with a
letter, which the check does not ask: a name that starts with another character is the name of no
start tag of any fragment (`not_mem_tokenize`). `reads_names` puts the two together.
-/

namespace Stencil

namespace Settings

/-! ## What the check lets through -/

/-- A name that is let through is not empty, and each of its characters can stand in a name. -/
theorem of_checkName? {setting : NameSetting} {name : Text} (h : checkName? setting name = none) :
    name ≠ [] ∧ ∀ c ∈ name, isNameCharacter c = true := by
  unfold checkName? at h
  split at h
  · cases h
  · next hne =>
    split at h
    · next hall => exact ⟨hne, List.all_eq_true.1 hall⟩
    · cases h

theorem checkName?_of_check? {s : Settings} (h : s.check? = none) :
    checkName? .contextElement s.contextElement = none ∧
      checkName? .resourceDirective s.resourceDirective = none ∧
        checkName? .bodyMarker s.bodyMarker = none := by
  simp only [check?, Option.orElse_eq_orElse, Option.orElse_eq_or, Option.or_eq_none_iff] at h
  obtain ⟨hcontext, -, hdirective, hmarker, -⟩ := h
  exact ⟨hcontext, hdirective, hmarker⟩

theorem of_isNameCharacter {c : Char} (h : isNameCharacter c = true) :
    c.isUpper = false ∧ Html.Tag.endsName c = false ∧ c ≠ '=' := by
  simp only [isNameCharacter, Bool.and_eq_true, Bool.not_eq_true'] at h
  obtain ⟨⟨hupper, hblank⟩, hdelimiter⟩ := h
  have hne : ∀ d ∈ nameDelimiters, c ≠ d := by
    intro d hd heq
    rw [heq, List.contains_eq_mem, decide_eq_false_iff_not] at hdelimiter
    exact hdelimiter hd
  have hslash := hne '/' (by decide)
  have hbracket := hne '>' (by decide)
  refine ⟨hupper, ?_, hne '=' (by decide)⟩
  simp [Html.Tag.endsName, hblank, hslash, hbracket]

theorem lower_of_checkName? {setting : NameSetting} {name : Text}
    (h : checkName? setting name = none) : Ascii.lower name = name := by
  have hmap : name.map Char.toLower = name.map id := by
    apply List.map_congr_left
    intro c hc
    exact Ascii.toLower_eq_self (of_isNameCharacter ((of_checkName? h).2 c hc)).1
  rw [Ascii.lower, hmap, List.map_id]

theorem isAttributeName_of_checkName? {setting : NameSetting} {name : Text}
    (h : checkName? setting name = none) : Html.Tag.IsAttributeName name := by
  obtain ⟨hne, hname⟩ := of_checkName? h
  obtain ⟨c, cs, rfl⟩ := List.exists_cons_of_ne_nil hne
  obtain ⟨hc, hcs⟩ := List.forall_mem_cons.1 hname
  refine ⟨c, cs, rfl, (of_isNameCharacter hc).2.1, ?_⟩
  intro d hd
  obtain ⟨-, hends, hequals⟩ := of_isNameCharacter (hcs d hd)
  simp [Html.Tag.inAttributeName, hends, hequals]

/-- Whether a name starts with a letter, as the names of tags do. -/
def startsWithLetter (name : Text) : Bool := name.head?.any Char.isAlpha

/-- A name that is let through is the name of a tag if it starts with a letter. -/
theorem isName_of_checkName? {setting : NameSetting} {name : Text}
    (h : checkName? setting name = none) (hletter : startsWithLetter name = true) :
    Html.Tag.IsName name := by
  obtain ⟨hne, hname⟩ := of_checkName? h
  obtain ⟨c, cs, rfl⟩ := List.exists_cons_of_ne_nil hne
  refine ⟨c, cs, rfl, hletter, ?_⟩
  intro d hd
  exact (of_isNameCharacter (hname d (List.mem_cons_of_mem c hd))).2.1

end Settings

namespace Html

/-! ## What is read -/

theorem head?_tokenize_startTag {name : Text} (h : Tag.IsName name)
    (hlower : Ascii.lower name = name) :
    (tokenize ('<' :: (name ++ ['>']))).head? = some (.startTag name [] false) := by
  have hread := @Lexeme.read_startTag name h [] (by simp) (by simp [Tag.writtenAttributes]) []
  have htokens := Scanner.tokens_token (fun _ => true) 0 (Scanner.pull_token hread)
  rw [hlower] at htokens
  exact congrArg List.head? htokens

theorem not_mem_tokenize {name : Text} (h : Settings.startsWithLetter name = false) (t : Text)
    (as : List WrittenAttribute) (slash : Bool) : .startTag name as slash ∉ tokenize t := by
  intro hmem
  have hstream := @Scanner.isStream_tokens (fun _ => true) 0 t none nofun
  obtain ⟨⟨c, cs, rfl, hc, -⟩, -⟩ := hstream.each _ hmem
  rw [Settings.startsWithLetter, List.head?_cons, Option.any_some, hc] at h
  cases h

namespace Tag

theorem attribute?_bare {c : Char} {cs : Text} (hcs : ∀ d ∈ cs, inAttributeName d = true) :
    attribute? c (cs ++ ['>']) = some ((Ascii.lower (c :: cs), none), ['>']) := by
  have hend : ['>'].head?.all (fun d => !inAttributeName d) = true := by decide
  rw [attribute?, Text.dropWhile_run hcs hend, Text.takeWhile_run hcs hend]
  rfl

theorem attributes?_bare {name : Text} (h : IsAttributeName name)
    (hlower : Ascii.lower name = name) :
    attributes? [] (' ' :: (name ++ ['>'])) = some ([(name, none)], false, []) := by
  obtain ⟨c, cs, rfl, hc, hcs⟩ := h
  rw [List.cons_append, attributes?_attribute hc (attribute?_bare hcs), hlower]
  exact attributes?_startTagEnd [(c :: cs, none)] false []

end Tag

theorem tokenize_attribute {name : Text} (h : Tag.IsAttributeName name)
    (hlower : Ascii.lower name = name) :
    tokenize ("<x ".toList ++ name ++ ['>']) =
      [.startTag "x".toList [(name, none)] false] := by
  have hread : Lexeme.read '<' ('x' :: ' ' :: (name ++ ['>'])) =
      (.token (.startTag "x".toList [(name, none)] false), []) := by
    change Lexeme.startTag 'x' (' ' :: (name ++ ['>'])) = _
    rw [Lexeme.startTag, List.dropWhile_cons_of_neg (by decide),
      List.takeWhile_cons_of_neg (by decide), Tag.attributes?_bare h hlower]
    rfl
  have htokens := Scanner.tokens_token (fun _ => true) 0 (Scanner.pull_token hread)
  have hbody : (Token.startTag "x".toList [(name, none)] false).opensBody? = none := rfl
  rw [hbody, Scanner.tokens_nil] at htokens
  exact htokens

end Html

namespace Settings

open Html (tokenize)

/-! ## Names that are read -/

/-- **The names of settings without a fault** are read as they are: the marker always, as the one
attribute of a tag, and a name of an element as that of a start tag if it starts with a letter. If
it does not, it is the name of no start tag of any fragment. -/
theorem reads_names {s : Settings} (h : s.check? = none) :
    (∀ name ∈ [s.contextElement, s.resourceDirective],
      (startsWithLetter name = true →
        (tokenize ('<' :: (name ++ ['>']))).head? = some (.startTag name [] false)) ∧
      (startsWithLetter name = false →
        ∀ fragment as slash, .startTag name as slash ∉ tokenize fragment)) ∧
    tokenize ("<x ".toList ++ s.bodyMarker ++ ['>']) =
      [.startTag "x".toList [(s.bodyMarker, none)] false] := by
  obtain ⟨hcontext, hdirective, hmarker⟩ := checkName?_of_check? h
  have hname {setting : NameSetting} {name : Text} (hcheck : checkName? setting name = none) :
      (startsWithLetter name = true →
        (tokenize ('<' :: (name ++ ['>']))).head? = some (.startTag name [] false)) ∧
      (startsWithLetter name = false →
        ∀ fragment as slash, .startTag name as slash ∉ tokenize fragment) := by
    constructor
    · intro hletter
      exact Html.head?_tokenize_startTag (isName_of_checkName? hcheck hletter)
        (lower_of_checkName? hcheck)
    · intro hletter
      exact Html.not_mem_tokenize hletter
  constructor
  · intro name hmem
    rcases List.mem_cons.1 hmem with rfl | hmem
    · exact hname hcontext
    · rw [List.mem_singleton.1 hmem]
      exact hname hdirective
  · exact Html.tokenize_attribute (isAttributeName_of_checkName? hmarker)
      (lower_of_checkName? hmarker)

/-- Settings whose names hold signs, a letter outside ASCII, and the name of an element whose body
is no markup. -/
def unusualSettings : Settings where
  contextElement := "é".toList
  resourceDirective := "title".toList
  bodyMarker := "1&amp;é".toList

theorem reads_names_unusualSettings :
    unusualSettings.check? = none ∧
    startsWithLetter "title".toList = true ∧
    (tokenize "<title>".toList).head? = some (.startTag "title".toList [] false) ∧
    startsWithLetter "é".toList = false ∧
    (∀ fragment as slash, .startTag "é".toList as slash ∉ tokenize fragment) ∧
    tokenize "<x 1&amp;é>".toList =
      [.startTag "x".toList [("1&amp;é".toList, none)] false] := by
  have hcheck : unusualSettings.check? = none := by decide
  have hletter : startsWithLetter "title".toList = true := by decide
  have hother : startsWithLetter "é".toList = false := by decide
  obtain ⟨hnames, hmarker⟩ := reads_names hcheck
  have hdirective := (hnames "title".toList (List.mem_cons_of_mem _ List.mem_cons_self)).1 hletter
  have hcontext := (hnames "é".toList List.mem_cons_self).2 hother
  exact ⟨hcheck, hletter, hdirective, hother, hcontext, hmarker⟩

/-- The check lets a name through that starts with a digit, and no start tag has such a name. -/
theorem reads_names_needs_letter : ¬∀ s : Settings, s.check? = none →
    ∀ name ∈ [s.contextElement, s.resourceDirective], ∃ as slash,
      (tokenize ('<' :: (name ++ ['>']))).head? = some (.startTag name as slash) := by
  intro h
  obtain ⟨as, slash, htoken⟩ := h { resourceDirective := "1x".toList } (by decide) "1x".toList
    (List.mem_cons_of_mem _ List.mem_cons_self)
  have htext : (tokenize "<1x>".toList).head? = some (.text "<1x>".toList) := by decide +kernel
  have heq := htext.symm.trans htoken
  cases heq

end Settings

end Stencil
