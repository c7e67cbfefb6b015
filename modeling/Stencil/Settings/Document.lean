import Stencil.Settings
import Stencil.Toml.Document

/-!
# Settings documents

Settings read from a document. What the document leaves out has its default, and a key that
means nothing is refused.
-/

namespace Stencil

/-- Why a settings document is refused. -/
inductive SettingsError where
  /-- It is no document, or not one of settings. -/
  | malformed
  | invalid (fault : SettingsFault)
  deriving DecidableEq, Repr

namespace SettingsError

/-- The refusal in words. -/
def message : SettingsError → Text
  | .malformed => "TOML parse error".toList
  | .invalid fault => "invalid configuration: ".toList ++ fault.message

end SettingsError

/-- The URL policy that a value of a document describes. -/
def UrlPolicy.ofValue? (v : Toml.Value) : Option UrlPolicy := do
  let keys := ["protocols", "relative_prefixes", "blocked_replacement"].map String.toList
  let default : UrlPolicy := {}
  match ← v.fields? keys with
  | [protocols, relativePrefixes, blockedReplacement] =>
    return {
      protocols := ← Toml.optional (·.strings?) default.protocols protocols
      relativePrefixes := ← Toml.optional (·.strings?) default.relativePrefixes relativePrefixes
      blockedReplacement := ←
        Toml.optional (·.string?) default.blockedReplacement blockedReplacement }
  | _ => none

namespace Settings

/-- The settings that a value of a document describes. -/
def ofValue? (v : Toml.Value) : Option Settings := do
  let keys := [NameSetting.contextElement.key, NameSetting.resourceDirective.key,
    NameSetting.bodyMarker.key, "url".toList]
  let default : Settings := {}
  match ← v.fields? keys with
  | [contextElement, resourceDirective, bodyMarker, url] =>
    return {
      contextElement := ← Toml.optional (·.string?) default.contextElement contextElement
      resourceDirective := ← Toml.optional (·.string?) default.resourceDirective resourceDirective
      bodyMarker := ← Toml.optional (·.string?) default.bodyMarker bodyMarker
      url := ← Toml.optional UrlPolicy.ofValue? default.url url }
  | _ => none

/-- The settings of a document, if they can be used. -/
def ofDocument (t : Text) : Except SettingsError Settings :=
  match (Toml.parse? t).bind ofValue? with
  | none => .error .malformed
  | some s =>
    match s.check? with
    | some fault => .error (.invalid fault)
    | none => .ok s

end Settings

end Stencil
