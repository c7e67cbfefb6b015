import Stencil.Bindings
import Stencil.Text.Search
import Stencil.Text.Space

/-!
# Arguments of the command line

What the words of a command line ask for: `--config` names a settings document, each `--arg`
binds a value, and the one word that is no option names the fragment, where `-` is the standard
input. After `--` no word is an option.
-/

namespace Stencil.CommandLine

/-- What a command line asks for. -/
structure Request where
  /-- The settings document. -/
  settings : Option Text := none
  /-- The bindings, in order. -/
  bindings : List Text := []
  /-- The fragment. -/
  fragment : Option Text := none
  deriving DecidableEq, Repr

/-- Why a command line is refused. -/
inductive UsageError where
  | unknownOption (word : Text)
  | missingValue (option : Text)
  | unexpectedValue (option : Text)
  | repeatedOption (option : Text)
  | secondFragment (word : Text)
  deriving DecidableEq, Repr

namespace UsageError

/-- The refusal in words. -/
def message : UsageError → Text
  | .unknownOption word => "error: unexpected argument '".toList ++ word ++ "' found".toList
  | .missingValue option =>
    "error: a value is required for '".toList ++ option ++ "' but none was supplied".toList
  | .unexpectedValue option =>
    "error: unexpected value for '".toList ++ option ++ "' found; no more were expected".toList
  | .repeatedOption option =>
    "error: the argument '".toList ++ option ++ "' cannot be used multiple times".toList
  | .secondFragment word => "error: unexpected argument '".toList ++ word ++ "' found".toList

end UsageError

/-- What a command line amounts to. -/
inductive Command where
  | help
  | render (request : Request)
  deriving DecidableEq, Repr

/-- The option that names a settings document. -/
def settingsOption : Text := "--config".toList

/-- The option that binds a value. -/
def bindingOption : Text := "--arg".toList

/-- Whether a word would be read as an option. -/
def isOption (word : Text) : Bool := word.head? = some '-' && word ≠ ['-']

namespace Request

/-- Names the settings document. -/
def withSettings (r : Request) (path : Text) : Except UsageError Request :=
  if r.settings.isSome then .error (.repeatedOption settingsOption)
  else if path = [] then .error (.missingValue settingsOption)
  else .ok { r with settings := some path }

/-- Adds a binding. -/
def withBinding (r : Request) (binding : Text) : Except UsageError Request :=
  .ok { r with bindings := r.bindings ++ [binding] }

/-- Names the fragment. -/
def withFragment (r : Request) (word : Text) : Except UsageError Request :=
  if r.fragment.isSome then .error (.secondFragment word)
  else if word = [] then .error (.missingValue "[FRAGMENT]".toList)
  else .ok { r with fragment := some word }

/-- Takes the value of an option. -/
def withOption (r : Request) (option value : Text) : Except UsageError Request :=
  if option = settingsOption then r.withSettings value else r.withBinding value

end Request

/-- Reads words none of which is an option. -/
def parseFragments (r : Request) (words : List Text) : Except UsageError Command :=
  (words.foldlM Request.withFragment r).map .render

/-- Reads the words of a command line. -/
def parseWords (r : Request) : List Text → Except UsageError Command
  | [] => .ok (.render r)
  | word :: words =>
    if word = "--".toList then parseFragments r words
    else if !isOption word then do parseWords (← r.withFragment word) words
    else
      let (option, attached) :=
        match Text.cut? ['='] word with
        | some (option, value) => (option, some value)
        | none => (word, none)
      if option = settingsOption || option = bindingOption then
        match attached, words with
        | some value, words => do parseWords (← r.withOption option value) words
        | none, value :: words =>
          if isOption value then .error (.missingValue option)
          else do parseWords (← r.withOption option value) words
        | none, [] => .error (.missingValue option)
      else if option = "--help".toList then
        if attached.isSome then .error (.unexpectedValue option) else .ok .help
      else if "-h".toList.isPrefixOf word then .ok .help
      else .error (.unknownOption word)

/-- What the words of a command line ask for. -/
def parse (words : List Text) : Except UsageError Command := parseWords {} words

/-- Binds what one `--arg` says: a value to the name before the first equals sign, without the space
around it, or, if there is no name, all of it to the least free position. -/
def bind (b : Bindings) (binding : Text) : Bindings :=
  match Text.cut? ['='] binding with
  | some (name, value) => if name = [] then b.push binding else b.insert (Text.trim name) value
  | none => b.push binding

/-- The bindings of a command line. -/
def bindAll (bindings : List Text) : Bindings := bindings.foldl bind .empty

/-- What is printed for help. -/
def helpText : Text :=
  "Expand \x7b\x7b\x7bplaceholders\x7d\x7d\x7d in an HTML fragment

Usage: html-templates [OPTIONS] [FRAGMENT]

Arguments:
  [FRAGMENT]  Fragment file, or `-` to read standard input [default: -]

Options:
      --config <FILE>  TOML replacer configuration
      --arg <BINDING>  Argument binding: NAME=VALUE, or a bare VALUE for the next positional slot
  -h, --help           Print help
".toList

end Stencil.CommandLine
