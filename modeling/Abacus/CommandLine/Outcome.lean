import Abacus.Event
import Abacus.Settings.Load
import Abacus.Text.Terminal

/-!
# Outcomes

How a command line ends: its exit status, and what it writes to the two standard
streams.
-/

namespace Abacus.CommandLine

/-- How a command line ends. -/
inductive Outcome where
  | misuse
  | version
  | help
  /-- The settings file at a location is refused. -/
  | refused (location : Location) (fault : ConfigFault)
  /-- The settings file at a location cannot be dealt with. -/
  | aborted (location : Location) (fault : LoadFault)
  | finished (status : Nat) (verbose : Bool) (events : List Event)

/-- The names of what the program runs on. -/
structure Environment where
  runtime : String
  platform : String

/-- The version of the program and what it runs on. -/
def versionText (env : Environment) : String :=
  "exprcalc version 0.1.0\n\nEnvironment:\n  Python:        " ++ env.runtime ++
    "\n  Platform:      " ++ env.platform ++ "\n"

/-- What the program is asked, in short. -/
def helpText : String :=
  "Usage: exprcalc [OPTIONS] COMMAND [ARGS]...\n\n" ++
  "Options:\n  --version\n  -v, --verbose\n  -c, --config FILE\n  --help\n\n" ++
  "Commands:\n" ++
  "  repl [-p, --prompt TEXT] [--show-tokens] [--show-tree] [--max-depth N]\n" ++
  "  eval EXPRESSION\n  tokens EXPRESSION\n  tree EXPRESSION\n"

/-- A diagnostic on standard error: a line without control sequences. -/
def diagnostic (text : String) : String :=
  String.ofList (Text.dropControls text.toList) ++ "\n"

namespace Outcome

/-- The outcome of settings that could not be loaded. -/
def ofLoadFault (location : Location) : LoadFault → Outcome
  | .config fault => .refused location fault
  | fault => .aborted location fault

def status : Outcome → Nat
  | .misuse => 2
  | .version | .help => 0
  | .refused _ _ | .aborted _ _ => 1
  | .finished status _ _ => status

/-- What an outcome writes to standard output. -/
def stdout (env : Environment) : Outcome → String
  | .version => versionText env
  | .help => helpText
  | .finished _ _ events => String.join (events.map Event.stdout)
  | .misuse | .refused _ _ | .aborted _ _ => ""

/-- What an outcome writes to standard error, with a time stamp for records. -/
def stderr (stamp : String) : Outcome → String
  | .misuse => helpText
  | .refused location fault => diagnostic (fault.message location)
  | .aborted location fault => diagnostic (fault.message location)
  | .finished _ verbose events => String.join (events.map (Event.stderr stamp verbose))
  | .version | .help => ""

end Outcome

end Abacus.CommandLine
