import Stencil.CommandLine.Run

/-!
# The command

Renders a fragment from a file or the standard input.
-/

namespace Stencil.Main

open CommandLine

/-- Why the system could not read something. -/
def failureOf (e : IO.Error) : ReadFailure :=
  match e with
  | .noFileOrDirectory .. => .notFound
  | .permissionDenied .. => .permissionDenied
  | .inappropriateType _ 20 _ => .notADirectory
  | .inappropriateType _ 21 _ => .isADirectory
  | e => .other e.toString.toList

/-- Reads bytes as text. -/
def readText (bytes : IO ByteArray) : IO (Except ReadFailure Text) := do
  match ← bytes.toBaseIO with
  | .ok bytes => return decodeUtf8 bytes
  | .error e => return .error (failureOf e)

/-- The files and the standard input of the process. -/
def world : World IO where
  file path := readText (IO.FS.readBinFile (String.ofList path))
  standardInput := readText do (← IO.getStdin).readBinToEnd

end Stencil.Main

/-- Runs the command line of the process. -/
def main (args : List String) : IO UInt32 := do
  match ← (Stencil.CommandLine.run Stencil.Main.world (args.map String.toList)).run with
  | .ok output =>
    let out ← IO.getStdout
    out.putStr (String.ofList output.standardOutput)
    out.flush
    IO.eprint (String.ofList output.standardError)
    return 0
  | .error failure =>
    IO.eprint (String.ofList failure.message)
    return failure.exitCode.toUInt32
