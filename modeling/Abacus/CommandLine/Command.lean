import Abacus.CommandLine.Options
import Abacus.Folder
import Abacus.Text.Integer

/-!
# Commands

What can be asked for on the command line. The general options stand in front
of the name of a command, its own options and operands behind it. Without a
command a session is held.

What the values of options look like is for the library to say that takes a
command line apart, and libraries differ: one takes digits of every script for
a number, another one a fraction of zeros behind it. So the reading of values is
a parameter (`OptionRules`). `OptionRules.standard` is what the program runs
with.
-/

namespace Abacus.CommandLine

inductive General where
  | version
  | help
  | verbose
  | config
  deriving DecidableEq, Repr

/-- The general options and their spellings. -/
def General.specs : List (OptionSpec General) :=
  [⟨some "--version", none, false, .version⟩, ⟨some "--help", none, false, .help⟩,
   ⟨some "--verbose", some 'v', false, .verbose⟩, ⟨some "--config", some 'c', true, .config⟩]

/-- The options of a session. -/
inductive SessionOption where
  | help
  | prompt
  | showTokens
  | showTree
  | maxDepth
  deriving DecidableEq, Repr

/-- The options of a session and their spellings. -/
def SessionOption.specs : List (OptionSpec SessionOption) :=
  [⟨some "--help", none, false, .help⟩, ⟨some "--prompt", some 'p', true, .prompt⟩,
   ⟨some "--show-tokens", none, false, .showTokens⟩,
   ⟨some "--show-tree", none, false, .showTree⟩, ⟨some "--max-depth", none, true, .maxDepth⟩]

/-- What a session is told on the command line. -/
structure SessionRequest where
  prompt : Option String
  maxDepth : Option Int
  showTokens : Bool
  showTree : Bool
  deriving DecidableEq, Repr

inductive Command where
  | repl
  | eval
  | tokens
  | tree
  deriving DecidableEq, Repr

def Command.name : Command → String
  | .repl => "repl"
  | .eval => "eval"
  | .tokens => "tokens"
  | .tree => "tree"

def Command.ofName? (name : String) : Option Command :=
  [.repl, .eval, .tokens, .tree].find? fun command => command.name == name

/-- What a command is asked to do. -/
inductive Request where
  | session (request : SessionRequest)
  | eval (expression : String)
  | tokens (expression : String)
  | tree (expression : String)
  deriving DecidableEq, Repr

/-- What the arguments after the name of a command come to. -/
inductive Reading where
  /-- They make no sense. -/
  | misuse
  /-- They ask for a help text. -/
  | help
  | request (request : Request)
  deriving DecidableEq, Repr

/-- How the values of options are taken. -/
structure OptionRules where
  /-- The integer that a value stands for. -/
  integer? : String → Option Int
  /-- True of what may be found at a path that is given as a value. -/
  admits : FileState → Bool

/-- Integers may be written as in settings: runs of the program take `5.0` for five, and a digit
of another script for no integer. What is found at a path has to be readable, and there need not
be anything. -/
def OptionRules.standard : OptionRules where
  integer? := Text.integer?
  admits state := state != .unnameable && state != .denied

variable (rules : OptionRules)

/-- The nesting that an argument allows: an integer of at least one. -/
def readDepth? (arg : String) : Option Int :=
  match rules.integer? arg with
  | some d => if 1 ≤ d then some d else none
  | none => none

/-- Reads the arguments after `repl`. Only `--help` goes with an operand or an
unsuitable depth. -/
def readSession (args : List String) : Reading :=
  match readArguments SessionOption.specs true args with
  | none => .misuse
  | some a =>
    let request (depth : Option Int) : Reading :=
      .request (.session ⟨a.lastValue? .prompt, depth, a.has .showTokens, a.has .showTree⟩)
    if a.has .help then .help
    else
      match a.operands, a.lastValue? .maxDepth with
      | [], none => request none
      | [], some arg =>
        match readDepth? rules arg with
        | some depth => request (some depth)
        | none => .misuse
      | _, _ => .misuse

/-- Reads the arguments after a command that takes one operand. -/
def readExpression (request : String → Request) (args : List String) : Reading :=
  match readArguments [⟨some "--help", none, false, ()⟩] true args with
  | none => .misuse
  | some a =>
    if a.has () then .help
    else
      match a.operands with
      | [expression] => .request (request expression)
      | _ => .misuse

/-- Reads the arguments after a command. -/
def Command.read : Command → List String → Reading
  | .repl => readSession rules
  | .eval => readExpression .eval
  | .tokens => readExpression .tokens
  | .tree => readExpression .tree

theorem Command.ofName?_name (command : Command) : ofName? command.name = some command := by
  cases command <;> decide

end Abacus.CommandLine
