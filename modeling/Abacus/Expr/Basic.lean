import Abacus.Literal
import Abacus.Operator

/-!
# Expressions

An expression is a tree of operators over literals. Parentheses only shape the
tree and never appear in it.

`Expr.leaf?` and `Expr.join?` build a tree from parts that need not fit, and
list everything about the parts that does not.
-/

namespace Abacus

/-- An arithmetic expression over the unsigned integers of 64 bits. -/
inductive Expr where
  | literal (value : UInt64)
  | binary (op : Operator) (left right : Expr)
  deriving DecidableEq, Repr

namespace Expr

/-- True of a tree with an operator at its root. -/
def isBinary : Expr → Bool
  | .literal _ => false
  | .binary _ _ _ => true

/-- The number of nodes of a tree. -/
def size : Expr → Nat
  | .literal _ => 1
  | .binary _ left right => left.size + right.size + 1

/-! ## Building trees from parts -/

/-- One of the two operands of an operator. -/
inductive Side where
  | left
  | right
  deriving DecidableEq, Repr

def Side.name : Side → String
  | .left => "left"
  | .right => "right"

/-- What is offered as an operand. -/
inductive Operand where
  | absent
  /-- Something that is no expression. -/
  | foreign
  | tree (e : Expr)
  deriving DecidableEq, Repr

/-- A part that does not fit. -/
inductive Misfit where
  | notInteger
  | outOfRange (fault : RangeFault)
  | unknownOperator
  /-- An operand that is not there. -/
  | absent (side : Side)
  /-- An operand that is no expression. -/
  | foreign (side : Side)
  deriving DecidableEq, Repr

/-- What does not fit about an operand. -/
def Operand.misfits (side : Side) : Operand → List Misfit
  | .absent => [.absent side]
  | .foreign => [.foreign side]
  | .tree _ => []

/-- The leaf of a number, which is absent when what was offered is no integer. -/
def leaf? : Option Int → Except (List Misfit) Expr
  | none => .error [.notInteger]
  | some v =>
    match literal? v with
    | .ok value => .ok (.literal value)
    | .error fault => .error [.outOfRange fault]

/-- The tree of an operator, absent when what was offered is none, and two
operands. All misfits are listed: the operator's, the left, the right. -/
def join? (op : Option Operator) (left right : Operand) : Except (List Misfit) Expr :=
  match op, left, right with
  | some op, .tree left, .tree right => .ok (.binary op left right)
  | op, left, right =>
    .error ((if op.isNone then [.unknownOperator] else []) ++
      left.misfits .left ++ right.misfits .right)

/-- A tree is built exactly from an operator and two trees. -/
theorem join?_eq_ok {op : Option Operator} {left right : Operand} {e : Expr} :
    join? op left right = .ok e ↔
      ∃ o l r, op = some o ∧ left = .tree l ∧ right = .tree r ∧ e = .binary o l r := by
  constructor
  · intro h
    unfold join? at h
    split at h
    · next o l r =>
      cases h
      exact ⟨o, l, r, rfl, rfl, rfl, rfl⟩
    · cases h
  · rintro ⟨o, l, r, rfl, rfl, rfl, rfl⟩
    rfl

end Expr

end Abacus
