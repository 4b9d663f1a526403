import Abacus.Expr.Basic
import Abacus.Text.Numeral

/-!
# Drawings

A tree drawn with one line a node, the root first and the left operand above
the right one. Guides of four columns lead from a node to its operands.
-/

namespace Abacus.Expr

/-- What a drawing shows of a node: its number or its operator. -/
def label : Expr → String
  | .literal value => Numeral.ofNat value.toNat
  | .binary op _ _ => op.text

/-- Puts one guide in front of the first line of a subtree and another in front
of the lines below it. -/
def hang (first below : String) : List String → List String
  | [] => []
  | line :: lines => (first ++ line) :: lines.map (below ++ ·)

def drawing : Expr → List String
  | .literal value => [(literal value).label]
  | .binary op left right =>
    (binary op left right).label ::
      (hang "├── " "│   " left.drawing ++ hang "└── " "    " right.drawing)

/-- A drawing has one line for each node. -/
theorem length_drawing (e : Expr) : e.drawing.length = e.size := by
  have length_hang (first below : String) (lines : List String) :
      (hang first below lines).length = lines.length := by
    cases lines <;> simp [hang]
  induction e with
  | literal value => rfl
  | binary op left right ihl ihr =>
    simp only [drawing, size, List.length_cons, List.length_append, length_hang, ihl, ihr]

end Abacus.Expr
