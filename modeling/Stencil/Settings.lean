import Stencil.Html.Vocabulary
import Stencil.Text.Quoted
import Stencil.Url

/-!
# Settings

What a render can be told: the element fragments stand in, the two names with a meaning of
their own, and the URLs that are allowed. `check?` finds the first setting that could never
match a parsed fragment, or that would allow every URL.
-/

namespace Stencil

/-- The settings of a render. -/
structure Settings where
  /-- The element that fragments are parsed as the contents of. -/
  contextElement : Text := "div".toList
  /-- The element that asks for modules and is not written. -/
  resourceDirective : Text := "mw:resourceloader".toList
  /-- The attribute of elements whose contents are processed again as block markup. -/
  bodyMarker : Text := "data-mw-wikitext".toList
  url : UrlPolicy := {}
  deriving DecidableEq, Repr, Inhabited

/-- The settings that hold a name. -/
inductive NameSetting where
  | contextElement
  | resourceDirective
  | bodyMarker
  deriving DecidableEq, Repr

namespace NameSetting

/-- The key of the setting in a settings document. -/
def key : NameSetting → Text
  | .contextElement => "context_element".toList
  | .resourceDirective => "resource_directive".toList
  | .bodyMarker => "wikitext_body_attribute".toList

end NameSetting

/-- Why settings are refused. -/
inductive SettingsFault where
  | emptyName (setting : NameSetting)
  | malformedName (setting : NameSetting) (name : Text)
  | contextWithoutMarkup (name : Text)
  | emptyProtocol
  | emptyRelativePrefix
  | emptyReplacement
  deriving DecidableEq, Repr

namespace SettingsFault

/-- The reason in words. -/
def message : SettingsFault → Text
  | .emptyName setting => setting.key ++ " cannot be empty".toList
  | .malformedName setting name =>
    setting.key ++ " must be a lowercase tag or attribute name, got ".toList ++ Text.quote name
  | .contextWithoutMarkup name =>
    "context_element cannot be <".toList ++ name ++
      ">: its children are not parsed as markup".toList
  | .emptyProtocol => "url.protocols cannot contain an empty prefix".toList
  | .emptyRelativePrefix => "url.relative_prefixes cannot contain an empty prefix".toList
  | .emptyReplacement => "url.blocked_replacement cannot be empty".toList

end SettingsFault

namespace Settings

/-- The characters besides capital letters and blanks that no name of a tag or attribute has. -/
def nameDelimiters : Text := "/>=\"'<".toList

/-- Whether a character can stand in a name as the scanner reads it. -/
def isNameCharacter (c : Char) : Bool :=
  !c.isUpper && !Ascii.isBlank c && !nameDelimiters.contains c

/-- What is wrong with a name. -/
def checkName? (setting : NameSetting) (name : Text) : Option SettingsFault :=
  if name = [] then some (.emptyName setting)
  else if name.all isNameCharacter then none
  else some (.malformedName setting name)

/-- What is wrong with the context element: its contents have to be parsed as markup. -/
def checkContext? (name : Text) : Option SettingsFault :=
  if Html.isRawText name || Html.isEscapable name || Html.isVoid name then
    some (.contextWithoutMarkup name)
  else none

/-- What is wrong with the URL policy. -/
def checkUrl? (p : UrlPolicy) : Option SettingsFault :=
  if [] ∈ p.protocols then some .emptyProtocol
  else if [] ∈ p.relativePrefixes then some .emptyRelativePrefix
  else if p.blockedReplacement = [] then some .emptyReplacement
  else none

/-- The first thing that is wrong with the settings. -/
def check? (s : Settings) : Option SettingsFault :=
  checkName? .contextElement s.contextElement <|>
    checkContext? s.contextElement <|>
      checkName? .resourceDirective s.resourceDirective <|>
        checkName? .bodyMarker s.bodyMarker <|>
          checkUrl? s.url

end Settings

end Stencil
