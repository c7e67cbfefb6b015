import Stencil.Text.Quoted

/-!
# Notices

A notice tells the reader of a log what parsing or rendering did on the way. Notices never
change a result.
-/

namespace Stencil

/-- How much a notice matters. -/
inductive Severity where
  | trace
  | debug
  deriving DecidableEq, Repr

/-- What a log holds of one thing that happened. -/
structure Notice where
  severity : Severity
  /-- The part of the program it happened in. -/
  topic : String
  message : Text
  deriving DecidableEq, Repr

namespace Notice

/-- The word for a severity at the start of a log line. -/
def severityWord : Severity → String
  | .trace => "TRACE"
  | .debug => "DEBUG"

/-- The notice as one line of a log. -/
def line (n : Notice) : Text :=
  (severityWord n.severity).toList ++ ' ' :: n.topic.toList ++ ' ' :: n.message

end Notice

end Stencil
