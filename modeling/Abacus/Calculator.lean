import Abacus.Expr.Draft
import Abacus.Expr.OfTokens
import Abacus.Notice
import Abacus.Token.Scan

/-!
# Calculating a line

A line is scanned into tokens, the tokens are read as an expression, and the
expression is evaluated. The first stage that fails ends the calculation. Lines
are independent of each other.
-/

namespace Abacus

/-- The deepest nesting of parentheses allowed when nothing else is said. -/
def defaultMaxDepth : Int := 200

namespace Calculator

/-- Why a line has no value, by the stage that failed. -/
inductive Fault where
  | scan (fault : Token.ScanFault)
  | parse (fault : ParseFault)
  | eval (fault : EvalFault)
  deriving DecidableEq, Repr

def Fault.message : Fault → String
  | .scan fault => fault.message
  | .parse fault => fault.message
  | .eval fault => fault.message

/-- The notice of a fault in a line. A scan fault shows where in the line it is. -/
def Fault.notice (line : String) : Fault → Notice
  | .scan fault => .atColumn fault.message line fault.index
  | .parse fault => .plain fault.message
  | .eval fault => .plain fault.message

/-- Everything that comes of a line that has a value. -/
structure Calculation where
  source : String
  tokens : List Token
  tree : Expr
  value : Int
  deriving DecidableEq, Repr

def scan (line : String) : Except Fault (List Token) :=
  (Token.scan line).mapError .scan

def parse (limit : Int) (line : String) : Except Fault Expr := do
  let tokens ← scan line
  (Expr.ofTokens limit tokens).mapError .parse

def calculate (limit : Int) (line : String) : Except Fault Int := do
  let tree ← parse limit line
  tree.eval.mapError .eval

/-- The value of a line, with the tokens and the tree it comes from. -/
def trace (limit : Int) (line : String) : Except Fault Calculation := do
  let tokens ← scan line
  let tree ← (Expr.ofTokens limit tokens).mapError .parse
  let value ← tree.eval.mapError .eval
  return { source := line, tokens := tokens, tree := tree, value := value }

/-- The word that ends a session. -/
def exitCommand : String := "exit"

/-- True of a line that holds the exit command and blanks only. -/
def isExit (line : String) : Bool :=
  Text.trim Text.isBlank line.toList == exitCommand.toList

end Calculator

end Abacus
