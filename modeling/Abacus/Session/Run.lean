import Abacus.Event
import Abacus.Expr.Text
import Abacus.Session.Input

/-!
# Sessions

A session reads lines, calculates each and writes its value, until it reads the
exit command or the input ends. A line without a value writes one message and
the session goes on. Only an input that cannot be read ends it with a failure.

Parentheses nest as deep as the settings allow. That the stack of a machine may
end before that, and the session with it, is left aside.
-/

namespace Abacus

namespace Session

/-- The exit status of a session that came to its end. -/
def statusOk : Nat := 0

/-- The exit status of a session that could not read its input. -/
def statusInputError : Nat := 1

/-- What asking for a line writes. -/
def promptEvents (s : Settings) : List Event :=
  if s.prompt.isEmpty then [] else [.out s.prompt]

/-- What a calculation writes. -/
def reportEvents (s : Settings) (c : Calculator.Calculation) : List Event :=
  (if s.showTokens then [.out ("tokens: " ++ Token.render c.tokens ++ "\n")] else []) ++
  (if s.showTree then [.out ("tree: " ++ c.tree.text ++ "\n")] else []) ++
  [.out (Numeral.ofInt c.value ++ "\n")]

/-- What a line writes and logs. -/
def lineEvents (s : Settings) (line : String) : List Event :=
  (Record.ofTrace s.maxDepth line).map .log ++
  match Calculator.trace s.maxDepth line with
  | .ok calculation => reportEvents s calculation
  | .error fault => [.err (fault.message ++ "\n")]

/-- The message of an input that cannot be read. -/
def inputError (message : String) : String := "Input Error: " ++ message

/-- What the end of the input writes and logs, after a number of lines. -/
def endingEvents (count : Nat) : Ending → List Event
  | .eof => [.log (.ended count)]
  | .failure message =>
    [.err (inputError message ++ "\n"), .log (.stopped count (inputError message))]

/-- The exit status that an end of the input gives. -/
def endingStatus : Ending → Nat
  | .eof => statusOk
  | .failure _ => statusInputError

/-- The session on the given lines, after `count` lines. -/
def runFrom (s : Settings) (ending : Ending) (count : Nat) : List String → List Event × Nat
  | [] => (promptEvents s ++ endingEvents count ending, endingStatus ending)
  | line :: lines =>
    if Calculator.isExit line then (promptEvents s, statusOk)
    else
      let (events, status) := runFrom s ending (count + 1) lines
      (promptEvents s ++ lineEvents s line ++ events, status)

/-- The events and the exit status of a session. -/
def run (s : Settings) (input : Input) : List Event × Nat :=
  runFrom s input.ending 0 input.lines

end Session

end Abacus
