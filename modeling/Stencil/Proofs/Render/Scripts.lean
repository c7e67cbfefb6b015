import Stencil.Proofs.Bytes.Tag
import Stencil.Proofs.Render.Frames
import Stencil.Proofs.Script.Reading
import Stencil.Proofs.Template.Patches

/-!
# Values in the body of a script

The text of a script is filled in with literals, which start with a quote and hold no opening
bracket. So a close tag in what is filled in stands in the text itself (`closes_of_patched`), and a
script whose text holds none is read back up to the close tag that is written after it
(`closeTag_text`), unless a fallback is taken.
-/

namespace Stencil

open Html (Tag.Closes)

/-- A text that starts as a literal does, and holds no opening bracket. -/
def Script.Quoted (t : Text) : Prop := t.head? = some '"' ∧ '<' ∉ t

theorem Script.quoted_literal (t : Text) : Script.Quoted (Script.literal t) :=
  ⟨Script.head?_literal t, Script.bracket_not_mem_literal t⟩

/-- **No close tag comes in with a literal**, nor stands across the edge of one. -/
theorem closes_of_patched {name s t : Text} (hname : '"' ∉ name)
    (h : Template.Patched Script.Quoted s t) (ht : Tag.Closes name t) : Tag.Closes name s := by
  obtain ⟨before, written, c, after, rfl, hwritten, hc⟩ := ht
  have hbracket : Template.Patched Script.Quoted s
      (before ++ '<' :: ('/' :: written ++ [c] ++ after)) := by simpa using h
  obtain ⟨front, back, rfl, hback⟩ := Template.patched_char (fun v hv => hv.2) hbracket
  have hword : '"' ∉ '/' :: written ++ [c] := by
    intro hmem
    simp only [List.cons_append, List.mem_cons, List.mem_append, List.not_mem_nil, or_false] at hmem
    rcases hmem with hslash | hmem | rfl
    · exact absurd hslash (by decide)
    · exact hname (Html.Tag.mem_of_sameName (by decide) hwritten hmem)
    · exact absurd hc (by decide)
  obtain ⟨rest, rfl, -⟩ := Template.patched_prefix (fun v hv => hv.1) hword hback
  exact ⟨front, written, c, rest, by simp, hwritten, hc⟩

namespace Render.Expander

variable (e : Expander Id) {t : Text}

theorem patched_filled_script (ht : (Template.parse t).takesFallback (e.frame .script) = false) :
    Template.Patched Script.Quoted t (e.filled .script t) := by
  unfold filled
  split
  · refine Template.patched_expand ?_ (Template.spells_parse t) ht
    intro name v hv
    rw [get?_frame, Option.map_eq_some_iff] at hv
    obtain ⟨u, -, rfl⟩ := hv
    exact Script.quoted_literal _
  · simpa using Template.patched_keep t .nil

variable {s : Settings} (notice : Notice → Id Unit) {parent : Html.Element}
  {p : Progress Bindings}

/-- In a script what is filled in is written, or the text itself where the element asks for
modules. -/
theorem text_script_cases (hparent : parent.isHtmlNamed "script".toList = true) (hp : e.Kept p) :
    (((e.renderer s notice).text parent t).run p).1 = e.filled .script t ∨
      (((e.renderer s notice).text parent t).run p).1 = t := by
  have hraw : parent.holdsRawText = true := Place.holdsRawText_of_isHtmlNamed hparent
  cases hdirective : Ascii.sameName parent.name s.resourceDirective with
  | false =>
    have hplace := Place.inside_eq_script hdirective hparent
    exact .inl (e.settles_text_of_script notice hplace hraw t p hp).1
  | true =>
    right
    rw [Renderer.text, settings_renderer,
      Acts.text_of_directive _ (Place.inside_eq_directive.2 hdirective)]
    exact Html.textIn_of_raw hraw t

/-- **A script is read back up to the close tag written after it**, whatever is filled in. -/
theorem closeTag_text (hparent : parent.isHtmlNamed "script".toList = true) (hp : e.Kept p)
    (ht : Html.Tag.cutCloseTag? "script".toList t = none)
    (hfallback : (Template.parse t).takesFallback (e.frame .script) = false) :
    let written := (((e.renderer s notice).text parent t).run p).1
    Html.Tag.cutCloseTag? "script".toList (written ++ "</script>".toList) = some (written, []) ∧
    Bytes.closeTagFrom? "script".toList (written ++ "</script>".toList).bytes 0 =
      some (some (Text.byteLength written, Text.byteLength written + 9)) := by
  intro written
  have hwritten : ¬Html.Tag.Closes "script".toList written := by
    intro hcloses
    apply Html.Tag.not_closes_of_cutCloseTag?_none ht
    rcases e.text_script_cases notice (s := s) (t := t) hparent hp with h | h
    · have hpatched := e.patched_filled_script hfallback
      rw [← h] at hpatched
      exact closes_of_patched (by decide) hpatched hcloses
    · exact h ▸ hcloses
  exact ⟨Html.Tag.cutCloseTag?_append (by decide) hwritten [],
    Bytes.closeTagFrom?_append (by decide) (by decide) hwritten⟩

/-! ## In a script -/

def scriptElement : Html.Element := { name := "script".toList }

/-- One argument, which would end the script that it stands in. -/
def breakout : Expander Id := .escaping (.positional ["</script><img>".toList])

/-- A script with placeholders inside what starts like a close tag, and inside a name. -/
def filledScript : Text :=
  ("f(\x7b\x7b\x7b1|0\x7d\x7d\x7d, '</scr\x7b\x7b\x7b1\x7d\x7d\x7dipt>', " ++
    "\x7b\x7b\x7b</scr\x7b\x7b\x7b1\x7d\x7d\x7d\x7d\x7d\x7d)").toList

/-- What is written for `filledScript`. -/
def writtenScript : Text :=
  (((breakout.renderer {} fun _ => pure ⟨⟩).text scriptElement filledScript).run {}).1

theorem closeTag_text_filledScript :
    scriptElement.isHtmlNamed "script".toList = true ∧ breakout.Kept {} ∧
    Html.Tag.cutCloseTag? "script".toList filledScript = none ∧
    (Template.parse filledScript).takesFallback (breakout.frame .script) = false ∧
    Html.Tag.cutCloseTag? "script".toList (writtenScript ++ "</script>".toList) =
      some (writtenScript, []) ∧
    Bytes.closeTagFrom? "script".toList (writtenScript ++ "</script>".toList).bytes 0 =
      some (some (Text.byteLength writtenScript, Text.byteLength writtenScript + 9)) ∧
    writtenScript = ("f(\"\\u003C/script\\u003E\\u003Cimg\\u003E\", " ++
      "'</scr\"\\u003C/script\\u003E\\u003Cimg\\u003E\"ipt>', " ++
      "\x7b\x7b\x7b</scr\"\\u003C/script\\u003E\\u003Cimg\\u003E\"\x7d\x7d\x7d)").toList := by
  have hparent : scriptElement.isHtmlNamed "script".toList = true := by decide
  have hkept : breakout.Kept {} := breakout.kept_empty
  have hscript : Html.Tag.cutCloseTag? "script".toList filledScript = none := by decide +kernel
  have hfallback :
      (Template.parse filledScript).takesFallback (breakout.frame .script) = false := by
    decide +kernel
  have hfound :=
    breakout.closeTag_text (s := {}) (fun _ => pure ⟨⟩) hparent hkept hscript hfallback
  exact ⟨hparent, hkept, hscript, hfallback, hfound.1, hfound.2, by decide +kernel⟩

/-- A fallback is filled in as it is written, so it can end what starts like a close tag. -/
example :
    let script := "</scr\x7b\x7b\x7b1|ipt>\x7d\x7d\x7d".toList
    Html.Tag.cutCloseTag? "script".toList script = none ∧
      (Template.parse script).expand .empty = "</script>".toList := by
  decide +kernel

end Render.Expander

end Stencil
