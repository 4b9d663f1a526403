import Abacus.Event
import Abacus.Expr.Depth
import Abacus.Expr.Drawing
import Abacus.Expr.Text

/-!
# Listings

How tokens and trees are shown on a terminal of eighty columns: a token a line,
numbered and with its kind, and a tree as a drawing, unless it is too deep for
one.
-/

namespace Abacus.CommandLine

/-- A text with blanks in front up to a width. -/
def alignRight (width : Nat) (s : String) : String :=
  String.ofList (List.replicate (width - s.length) ' ') ++ s

/-- A text with blanks behind up to a width. -/
def alignLeft (width : Nat) (s : String) : String :=
  s ++ String.ofList (List.replicate (width - s.length) ' ')

/-- The line of a token in a list of tokens. -/
def tokenLine (index : Nat) (t : Token) : String :=
  alignRight 4 (Numeral.ofNat index) ++ "  " ++ alignLeft 8 t.kind.name ++ " " ++ t.text ++ "\n"

/-- The lines of the tokens from an index on. -/
def tokenLines (index : Nat) : List Token → List String
  | [] => []
  | t :: ts => tokenLine index t :: tokenLines (index + 1) ts

/-- The deepest tree that is drawn. Each level takes four columns, so that the
last of sixteen levels leaves room in eighty columns for a number of twenty
digits. -/
def deepestDrawing : Nat := 16

/-- The lines that show a tree. -/
def treeLines (e : Expr) : List String :=
  if deepestDrawing < e.depth then
    ["Tree is " ++ Numeral.ofNat e.depth ++ " levels deep, showing it flattened:\n",
     e.text ++ "\n"]
  else e.drawing.map (· ++ "\n")

example : tokenLine 12 (.operator .mul) = "  12  star     *\n" := by decide +kernel

end Abacus.CommandLine
