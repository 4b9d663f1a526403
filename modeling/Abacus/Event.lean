import Abacus.Log

/-!
# Events

What happens while the program runs: texts are written to standard output and
to standard error, and records are logged. Records go to standard error too.
-/

namespace Abacus

/-- Something that happens while the program runs. -/
inductive Event where
  /-- A text is written to standard output. -/
  | out (text : String)
  /-- A text is written to standard error. -/
  | err (text : String)
  | log (record : Record)
  deriving DecidableEq

namespace Event

/-- What an event writes to standard output. -/
def stdout : Event → String
  | .out text => text
  | .err _ | .log _ => ""

/-- What an event writes to standard error. Records carry the time stamp `stamp`,
and only those that matter enough are written. -/
def stderr (stamp : String) (verbose : Bool) : Event → String
  | .out _ => ""
  | .err text => text
  | .log record => if record.isShown verbose then record.line stamp else ""

/-- True of the events that write a text of their own. -/
def isWrite : Event → Bool
  | .out _ | .err _ => true
  | .log _ => false

end Event

end Abacus
