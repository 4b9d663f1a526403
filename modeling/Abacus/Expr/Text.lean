import Abacus.Expr.Basic
import Abacus.Text.Numeral

/-!
# The text of an expression

Every operator is written with its operands in parentheses and a space on
either side: `(1 + (2 * 3))`. A line such as `1+1+…+1` makes a tree as deep as
the line is long, so the text is written from a list of pieces still to be
written instead of by recursion over the tree.
-/

namespace Abacus.Expr

/-- A piece of text still to be written: a tree, or a text as it stands. -/
inductive Piece where
  | tree (e : Expr)
  | text (s : String)

/-- Bounds the number of pieces that a tree comes apart into. -/
def pieceCount : Expr → Nat
  | .literal _ => 1
  | .binary _ left right => left.pieceCount + right.pieceCount + 4

/-- Bounds the steps it takes to write a piece. -/
def Piece.weight : Piece → Nat
  | .tree e => e.pieceCount
  | .text _ => 1

/-- Writes the pieces, in order, after what is already written. -/
def writePieces : (pending : List Piece) → (written : String) → String
  | [], written => written
  | .text s :: pending, written => writePieces pending (written ++ s)
  | .tree (.literal value) :: pending, written =>
    writePieces pending (written ++ Numeral.ofNat value.toNat)
  | .tree (.binary op left right) :: pending, written =>
    writePieces
      (.text "(" :: .tree left :: .text (" " ++ op.text ++ " ") :: .tree right :: .text ")" ::
        pending)
      written
termination_by pending => pending.foldr (fun piece total => piece.weight + total) 0
decreasing_by
  all_goals
    simp only [List.foldr_cons, Piece.weight, pieceCount]
    omega

/-- The fully parenthesised text of an expression. -/
def text (e : Expr) : String := writePieces [.tree e] ""

end Abacus.Expr
