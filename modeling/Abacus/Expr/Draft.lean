import Abacus.Expr.Basic
import Abacus.Text.Numeral

/-!
# Reducing expressions

Evaluation reduces a tree to one integer: all of the left operand, then all of
the right one, then the operator. Results are checked against the range of 64
bits instead of wrapping around.

Reduction does not rely on a well-formed tree. It is defined on drafts, trees
in which a literal may be any integer, an operator any text, an operand missing,
and a node something that is no expression at all. It runs on a list of tasks
and a stack of values, so a tree may be of any depth.

The wording of a fault tells the operands, and they are put into words before
the result is checked. An operand that is too long for that is a fault of its
own, which does not arise among numbers in range (`applyText_text`).
-/

namespace Abacus

/-- A tree of which nothing is known yet. -/
inductive Draft where
  | literal (value : Int)
  /-- Any text in the place of an operator. -/
  | binary (op : String) (left right : Draft)
  /-- An operator of which an operand is missing. -/
  | incomplete (side : Expr.Side)
  /-- Something that is no expression, by the name of its type. -/
  | foreign (typeName : String)
  deriving DecidableEq, Repr

/-- The tree of any operator over operands of which some may be missing. The
right one is missed first. -/
def Draft.node (op : String) : (left right : Option Draft) → Draft
  | some left, some right => .binary op left right
  | _, none => .incomplete .right
  | none, some _ => .incomplete .left

/-- A result that 64 bits cannot hold, or that does not exist. -/
inductive ArithmeticFault where
  | divisionByZero
  /-- The sum or product of the operands is above `maxValue`. -/
  | overflow (op : Operator) (left right : Int)
  /-- The right operand is above the left one. -/
  | underflow (left right : Int)
  deriving DecidableEq, Repr

inductive ArithmeticFault.Kind where
  | divisionByZero
  | overflow
  | underflow
  deriving DecidableEq, Repr

def ArithmeticFault.Kind.name : ArithmeticFault.Kind → String
  | .divisionByZero => "division_by_zero"
  | .overflow => "overflow"
  | .underflow => "underflow"

def ArithmeticFault.Kind.ofName? (name : String) : Option ArithmeticFault.Kind :=
  [.divisionByZero, .overflow, .underflow].find? fun kind => kind.name == name

def ArithmeticFault.kind : ArithmeticFault → ArithmeticFault.Kind
  | .divisionByZero => .divisionByZero
  | .overflow _ _ _ => .overflow
  | .underflow _ _ => .underflow

def ArithmeticFault.message : ArithmeticFault → String
  | .divisionByZero => "Division by zero"
  | .overflow op left right =>
    "Overflow: " ++ Numeral.ofInt left ++ " " ++ op.text ++ " " ++ Numeral.ofInt right ++
      " exceeds " ++ Numeral.ofNat maxValue
  | .underflow left right =>
    "Underflow: " ++ Numeral.ofInt left ++ " - " ++ Numeral.ofInt right ++ " is negative"

/-- Why a draft has no value. -/
inductive EvalFault where
  /-- An operator has no result on its operands. -/
  | arithmetic (fault : ArithmeticFault)
  /-- An operator is none of the four. -/
  | unknownOperator (op : String)
  /-- An operand has too many digits to be put into words. -/
  | tooLong
  | incomplete (side : Expr.Side)
  | foreign (typeName : String)
  /-- The stack of values does not hold what a task needs. -/
  | unbalanced
  deriving DecidableEq, Repr

def EvalFault.message : EvalFault → String
  | .arithmetic fault => fault.message
  | .unknownOperator op => "Unknown binary op: " ++ op
  | .tooLong => Numeral.excessMessage none
  | .incomplete side => "'BinaryExpr' object has no attribute '" ++ side.name ++ "'"
  | .foreign typeName => "Unknown expression type: " ++ typeName
  | .unbalanced => "Unbalanced value stack"

/-- The result of an operator that must not exceed `maxValue`. -/
def checkOverflow (op : Operator) (left right result : Int) : Except ArithmeticFault Int :=
  if maxValue < result then .error (.overflow op left right) else .ok result

/-- The result of an operator on two integers. Division rounds down. -/
def Operator.apply (op : Operator) (left right : Int) : Except ArithmeticFault Int :=
  match op with
  | .add => checkOverflow .add left right (left + right)
  | .sub => if left < right then .error (.underflow left right) else .ok (left - right)
  | .mul => checkOverflow .mul left right (left * right)
  | .div => if right = 0 then .error .divisionByZero else .ok (left.fdiv right)

/-- True of operands that an operator puts into words: a sum and a product
always, a difference only below zero, and a quotient never. -/
def Operator.describes (op : Operator) (left right : Int) : Bool :=
  match op with
  | .add | .mul => true
  | .sub => left < right
  | .div => false

/-- The name of a kind of fault determines it. -/
theorem ArithmeticFault.Kind.ofName?_name (kind : ArithmeticFault.Kind) :
    ArithmeticFault.Kind.ofName? kind.name = some kind := by
  cases kind <;> decide

namespace Draft

/-- The result of the operator that a text names. -/
def applyText (op : String) (left right : Int) : Except EvalFault Int :=
  match Operator.ofText? op with
  | none => .error (.unknownOperator op)
  | some o =>
    if o.describes left right && (Numeral.isTooLong left || Numeral.isTooLong right) then
      .error .tooLong
    else (o.apply left right).mapError .arithmetic

/-- A step of a reduction that is still to be done. -/
inductive Task where
  | visit (node : Draft)
  /-- Replace the two values on top by the result of an operator. -/
  | combine (op : String)
  deriving DecidableEq, Repr

/-- The number of tasks that visiting a tree takes. -/
def taskCount : Draft → Nat
  | .literal _ => 1
  | .binary _ left right => left.taskCount + right.taskCount + 2
  | .incomplete _ | .foreign _ => 1

/-- Bounds the steps that a task takes. -/
def Task.weight : Task → Nat
  | .visit node => node.taskCount
  | .combine _ => 1

/-- Does the tasks in order and answers with the values that are left. A tree
with an operator is put back as three tasks: its left operand, its right
operand, and the operator. -/
def runTasks : (tasks : List Task) → (values : List Int) → Except EvalFault (List Int)
  | [], values => .ok values
  | .visit (.literal v) :: tasks, values => runTasks tasks (v :: values)
  | .visit (.incomplete side) :: _, _ => .error (.incomplete side)
  | .visit (.foreign typeName) :: _, _ => .error (.foreign typeName)
  | .visit (.binary op left right) :: tasks, values =>
    runTasks (.visit left :: .visit right :: .combine op :: tasks) values
  | .combine op :: tasks, right :: left :: values =>
    match applyText op left right with
    | .ok v => runTasks tasks (v :: values)
    | .error fault => .error fault
  | .combine _ :: _, _ => .error .unbalanced
termination_by tasks => tasks.foldr (fun task total => task.weight + total) 0
decreasing_by
  all_goals
    simp only [List.foldr_cons, Task.weight, taskCount]
    omega

/-- The value of a draft: the one value left when it has been visited. -/
def reduce (d : Draft) : Except EvalFault Int :=
  match runTasks [.visit d] [] with
  | .ok [v] => .ok v
  | .ok _ => .error .unbalanced
  | .error fault => .error fault

/-- No number in range is too long to be put into words. -/
theorem not_isTooLong {v : Int} (h : v.natAbs ≤ maxValue) : Numeral.isTooLong v = false := by
  have hpow : 10 ^ 20 ≤ 10 ^ Numeral.maxLength := Nat.pow_le_pow_right (by decide) (by decide)
  have hmax : maxValue < 10 ^ 20 := by decide
  simp only [Numeral.isTooLong, Nat.pow_eq, decide_eq_false_iff_not, Nat.not_le]
  omega

/-- On operands in range the text of an operator does what the operator does. -/
theorem applyText_text (op : Operator) {left right : Int} (hl : left.natAbs ≤ maxValue)
    (hr : right.natAbs ≤ maxValue) :
    applyText op.text left right = (op.apply left right).mapError .arithmetic := by
  simp [applyText, Operator.ofText?_text, not_isTooLong hl, not_isTooLong hr]

end Draft

namespace Expr

def toDraft : Expr → Draft
  | .literal value => .literal value.toNat
  | .binary op left right => .binary op.text left.toDraft right.toDraft

def eval (e : Expr) : Except EvalFault Int := e.toDraft.reduce

end Expr

end Abacus
