import Abacus.CommandLine.Command
import Abacus.CommandLine.Listing
import Abacus.CommandLine.Outcome
import Abacus.Session.Run

/-!
# Running a command line

What a command line does, given how the values of options are taken, what is
found at the locations that it names, and what can be read from standard input.
General options that make no sense end the program before anything else. Then
the version or the help text is shown if it was asked for. Otherwise the
settings are loaded, the arguments of the command are read, and the command is
carried out. Without a command a session is held under the settings as they are.
-/

namespace Abacus.CommandLine

/-- What a fault in an expression writes. -/
def faultEvent (line : String) (fault : Calculator.Fault) : Event :=
  .err (diagnostic (fault.notice line).display)

def runEval (s : Settings) (expression : String) : List Event × Nat :=
  let logged := (Record.ofCalculation s.maxDepth expression).map Event.log
  match Calculator.calculate s.maxDepth expression with
  | .ok value => (logged ++ [.out (Numeral.ofInt value ++ "\n")], 0)
  | .error fault => (logged ++ [faultEvent expression fault], 1)

def runTokens (expression : String) : List Event × Nat :=
  let logged := (Record.ofScan expression).map Event.log
  match Calculator.scan expression with
  | .ok tokens => (logged ++ (tokenLines 1 tokens).map .out, 0)
  | .error fault => (logged ++ [faultEvent expression fault], 1)

def runTree (s : Settings) (expression : String) : List Event × Nat :=
  let logged := (Record.ofParse s.maxDepth expression).map Event.log
  match Calculator.parse s.maxDepth expression with
  | .ok tree => (logged ++ (treeLines tree).map .out, 0)
  | .error fault => (logged ++ [faultEvent expression fault], 1)

/-- The entries that a session request puts over the settings. An option that
was not given has no value. -/
def SessionRequest.overrides (r : SessionRequest) : Entries Setting :=
  let flag (given : Bool) : Setting := if given then .flag true else .null
  [("prompt", (r.prompt.map Setting.text).getD .null),
   ("show_tokens", flag r.showTokens),
   ("show_tree", flag r.showTree),
   ("max_depth", (r.maxDepth.map Setting.integer).getD .null)]

/-- Carries out a request. There is no answer if the settings do not take what a
session was told. -/
def Request.run? (s : Settings) (input : Input) : Request → Option (List Event × Nat)
  | .session r =>
    match s.override r.overrides with
    | .ok s => some (Session.run s input)
    | .error _ => none
  | .eval expression => some (runEval s expression)
  | .tokens expression => some (runTokens expression)
  | .tree expression => some (runTree s expression)

/-- The general options of a command line. -/
structure Preamble where
  verbose : Bool
  config : Option Location

/-- The settings to start from, with the records of loading them. -/
def Preamble.load (p : Preamble) (found : Location → FileState) :
    Except Outcome (Settings × List Event) :=
  match p.config with
  | none => .ok (.initial, [])
  | some location =>
    match Settings.load (found location) with
    | .ok s => .ok (s, [.log (.loaded location.text s)])
    | .error fault => .error (.ofLoadFault location fault)

/-- Carries out a command with general options. -/
def runCommand (rules : OptionRules) (found : Location → FileState) (input : Input)
    (p : Preamble) (command : Command) (args : List String) : Outcome :=
  match p.load found with
  | .error outcome => outcome
  | .ok (s, logged) =>
    match command.read rules args with
    | .misuse => .misuse
    | .help => .help
    | .request request =>
      match request.run? s input with
      | some (events, status) => .finished status p.verbose (logged ++ events)
      | none => .misuse

/-- Holds a session under the settings as they are loaded. -/
def runSession (found : Location → FileState) (input : Input) (p : Preamble) : Outcome :=
  match p.load found with
  | .error outcome => outcome
  | .ok (s, logged) =>
    let held := Session.run s input
    .finished held.2 p.verbose (logged ++ held.1)

/-- The version or the help text, whichever is asked for first. -/
def eager? (a : Arguments General) : Option Outcome :=
  (a.options.find? fun given => given.meaning = .version || given.meaning = .help).map fun given =>
    if given.meaning = .version then .version else .help

/-- The outcome of a name that is no command. A name that looks like an option
is read as one, for the sake of the version and the help text. -/
def unknownCommand (args : List String) : Outcome :=
  match readArguments General.specs false args with
  | some a => (eager? a).getD .misuse
  | none => .misuse

/-- The outcome of a command line. A settings file that is not admitted is a
misuse, whatever the command. -/
def OptionRules.run (rules : OptionRules) (found : Location → FileState) (input : Input)
    (args : List String) : Outcome :=
  match readArguments General.specs false args with
  | none => .misuse
  | some a =>
    match eager? a with
    | some outcome => outcome
    | none =>
      let p : Preamble := ⟨a.has .verbose, (a.lastValue? .config).map Location.ofText⟩
      if p.config.all fun location => rules.admits (found location) then
        match a.operands with
        | [] => runSession found input p
        | name :: rest =>
          match Command.ofName? name with
          | some command => runCommand rules found input p command rest
          | none => unknownCommand a.operands
      else .misuse

/-- The outcome of a command line under the rules that the program runs with,
given the bytes of standard input. -/
def run (found : Location → FileState) (stdin : List UInt8) (args : List String) : Outcome :=
  OptionRules.standard.run found (.ofBytes stdin) args

/-- True of a command line that reads standard input, if it reads anything. -/
def readsInput (args : List String) : Bool :=
  match readArguments General.specs false args with
  | some a => a.operands.head?.all (· == Command.name .repl)
  | none => false

/-- The location of the settings file that a command line names. -/
def configLocation? (args : List String) : Option Location :=
  match readArguments General.specs false args with
  | some a => (a.lastValue? .config).map Location.ofText
  | none => none

end Abacus.CommandLine
