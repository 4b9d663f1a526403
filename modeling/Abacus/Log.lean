import Abacus.Settings.Basic

/-!
# Log records

What the calculator notes about its own work. Each stage that succeeds leaves a
record for debugging, and a session that cannot read its input leaves an error.
A record is written on one line: a time stamp, its level, its channel and its
text.
-/

namespace Abacus

inductive Level where
  | debug
  | error
  deriving DecidableEq, Repr

def Level.name : Level → String
  | .debug => "DEBUG"
  | .error => "ERROR"

/-- A note about the work done. -/
inductive Record where
  /-- A line was scanned into a number of tokens. -/
  | scanned (line : String) (count : Nat)
  /-- A number of tokens was read as an expression, with an operator at its root
  or not. -/
  | parsed (count : Nat) (isBinary : Bool)
  | evaluated (value : Int)
  | calculated (line : String) (value : Int)
  | loaded (path : String) (settings : Settings)
  /-- The input of a session ended after a number of lines. -/
  | ended (lines : Nat)
  /-- The input of a session could not be read on after a number of lines. -/
  | stopped (lines : Nat) (message : String)
  deriving DecidableEq

namespace Record

def level : Record → Level
  | .stopped _ _ => .error
  | _ => .debug

/-- The part of the program that a record comes from. -/
def channel : Record → String
  | .scanned _ _ => "exprcalc.core.expression_lang.tokenizer"
  | .parsed _ _ => "exprcalc.core.expression_lang.parser"
  | .evaluated _ => "exprcalc.core.expression_lang.evaluator"
  | .calculated _ _ => "exprcalc.core.calculator"
  | .loaded _ _ => "exprcalc.core.config"
  | .ended _ | .stopped _ _ => "exprcalc.repl"

/-- The line without the blanks around it. -/
def stripped (line : String) : String :=
  String.ofList (Text.trim Text.isBlank line.toList)

/-- What a record says. -/
def text : Record → String
  | .scanned line count =>
    "Tokenized " ++ Text.quote line ++ " into " ++ Numeral.ofNat count ++ " tokens"
  | .parsed count isBinary =>
    "Parsed " ++ Numeral.ofNat count ++ " tokens into a " ++
      (if isBinary then "BinaryExpr" else "Literal") ++ " node"
  | .evaluated value => "Evaluated to " ++ Numeral.ofInt value
  | .calculated line value =>
    Text.quote (stripped line) ++ " = " ++ Numeral.ofInt value
  | .loaded path settings => "Loaded config from " ++ path ++ ": " ++ settings.describe
  | .ended lines => "End of input after " ++ Numeral.ofNat lines ++ " lines"
  | .stopped lines message =>
    "Stopping after " ++ Numeral.ofNat lines ++ " lines: " ++ message

/-- The line of a record, with the time stamp `stamp`. -/
def line (stamp : String) (r : Record) : String :=
  stamp ++ " [" ++ r.level.name ++ "] " ++ r.channel ++ ": " ++ r.text ++ "\n"

/-- True of the records that are written: all of them when `verbose`, otherwise
only errors. -/
def isShown (verbose : Bool) (r : Record) : Bool := verbose || r.level == .error

/-! ## The records of one line -/

def ofScan (line : String) : List Record :=
  match Calculator.scan line with
  | .ok tokens => [.scanned line tokens.length]
  | .error _ => []

/-- The records of reading a line as an expression. -/
def ofParse (limit : Int) (line : String) : List Record :=
  match Calculator.scan line, Calculator.parse limit line with
  | .ok tokens, .ok tree => ofScan line ++ [.parsed tokens.length tree.isBinary]
  | _, _ => ofScan line

/-- The records of evaluating the expression on a line. -/
def ofTrace (limit : Int) (line : String) : List Record :=
  match Calculator.trace limit line with
  | .ok calculation => ofParse limit line ++ [.evaluated calculation.value]
  | .error _ => ofParse limit line

def ofCalculation (limit : Int) (line : String) : List Record :=
  match Calculator.calculate limit line with
  | .ok value => ofTrace limit line ++ [.calculated line value]
  | .error _ => ofTrace limit line

end Record

end Abacus
