import Stencil.CommandLine.Arguments
import Stencil.Render.Renderer
import Stencil.Settings.Document

/-!
# Running a command line

The settings are read before the fragment, and the first thing that fails ends the run. The rendered
fragment is printed, and the modules it asks for are named after it for the person who runs the
command.
-/

namespace Stencil.CommandLine

/-- Why a file or the standard input cannot be read. -/
inductive ReadFailure where
  | notFound
  | permissionDenied
  | notADirectory
  | isADirectory
  | notUtf8
  /-- Any other failure, as the system names it. -/
  | other (description : Text)
  deriving DecidableEq, Repr

namespace ReadFailure

/-- The failure in words. -/
def message : ReadFailure → Text
  | .notFound => "No such file or directory (os error 2)".toList
  | .permissionDenied => "Permission denied (os error 13)".toList
  | .notADirectory => "Not a directory (os error 20)".toList
  | .isADirectory => "Is a directory (os error 21)".toList
  | .notUtf8 => "stream did not contain valid UTF-8".toList
  | .other description => description

end ReadFailure

/-- The text of bytes in UTF-8. -/
def decodeUtf8 (bytes : ByteArray) : Except ReadFailure Text :=
  match String.fromUTF8? bytes with
  | some s => .ok s.toList
  | none => .error .notUtf8

/-- What a command line can read. -/
structure World (m : Type → Type) where
  file : Text → m (Except ReadFailure Text)
  standardInput : m (Except ReadFailure Text)

/-- Why a run failed. -/
inductive Failure where
  | usage (e : UsageError)
  | settingsUnreadable (path : Text) (reason : ReadFailure)
  | settings (e : SettingsError)
  | fragmentUnreadable (path : Text) (reason : ReadFailure)
  | inputUnreadable (reason : ReadFailure)
  deriving DecidableEq, Repr

namespace Failure

/-- A failure in words, with its cause below it. -/
def withCause (what : Text) (reason : ReadFailure) : Text :=
  "Error: ".toList ++ what ++ "\n\nCaused by:\n    ".toList ++ reason.message ++ ['\n']

/-- What the person who runs the command is told. -/
def message : Failure → Text
  | .usage e => e.message ++ "\n\nFor more information, try '--help'.\n".toList
  | .settingsUnreadable path reason =>
    withCause ("failed to read ".toList ++ path ++ ": ".toList ++ reason.message) reason
  | .settings e => "Error: ".toList ++ e.message ++ ['\n']
  | .fragmentUnreadable path reason => withCause ("failed to read ".toList ++ path) reason
  | .inputUnreadable reason => withCause "failed to read fragment from stdin".toList reason

/-- The exit code of a failure. -/
def exitCode : Failure → Nat
  | .usage _ => 2
  | _ => 1

end Failure

/-- What a run that succeeds prints. -/
structure Output where
  standardOutput : Text
  standardError : Text := []
  deriving DecidableEq, Repr

/-- The lines that name the modules to load. -/
def moduleLines (ms : Modules) : Text :=
  (ms.scripts.flatMap fun name => "script module: ".toList ++ name ++ ['\n']) ++
    ms.styles.flatMap fun name => "style module: ".toList ++ name ++ ['\n']

/-- A fragment rendered with arguments of a command line. -/
def output (settings : Settings) (bindings : List Text) (fragment : Text) : Output :=
  let expander : Render.Expander Id := .escaping (bindAll bindings)
  let rendered := Id.run (expander.render settings (fun _ => pure ()) fragment)
  { standardOutput := expander.stash.resolve rendered.html
    standardError := moduleLines rendered.modules }

variable {m : Type → Type} [Monad m]

/-- The settings that a request names, or the defaults. -/
def readSettings (w : World m) (r : Request) : ExceptT Failure m Settings := do
  match r.settings with
  | none => return {}
  | some path =>
    match ← w.file path with
    | .error reason => throw (.settingsUnreadable path reason)
    | .ok document =>
      match Settings.ofDocument document with
      | .error e => throw (.settings e)
      | .ok settings => return settings

/-- Whether what follows a part of a path leads nowhere else: slashes, with nothing or one dot after
each. -/
def staysThere : Text → Bool
  | [] => true
  | '/' :: '.' :: t => staysThere t
  | '/' :: t => staysThere t
  | _ :: _ => false

/-- Whether a path is that of the standard input, a dash. -/
def isStandardInput : Text → Bool
  | '-' :: t => staysThere t
  | _ => false

/-- The fragment that a request names, or the standard input. -/
def readFragment (w : World m) (r : Request) : ExceptT Failure m Text := do
  let path := r.fragment.getD ['-']
  if isStandardInput path then
    match ← w.standardInput with
    | .error reason => throw (.inputUnreadable reason)
    | .ok fragment => return fragment
  else
    match ← w.file path with
    | .error reason => throw (.fragmentUnreadable path reason)
    | .ok fragment => return fragment

/-- Runs a command line. -/
def run (w : World m) (words : List Text) : ExceptT Failure m Output := do
  match parse words with
  | .error e => throw (.usage e)
  | .ok .help => return { standardOutput := helpText }
  | .ok (.render r) =>
    let settings ← readSettings w r
    let fragment ← readFragment w r
    return output settings r.bindings fragment

end Stencil.CommandLine
