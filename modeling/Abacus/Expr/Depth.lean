import Abacus.Expr.Basic

/-!
# The depth of an expression

The number of levels of a tree, a literal having one. The levels are counted
over a list of trees still to be visited, so a tree may be of any depth.
-/

namespace Abacus.Expr

/-- The deepest level among the trees still to be visited, each with the level
of its root, and the levels seen so far. -/
def deepestLevel : (pending : List (Expr × Nat)) → (seen : Nat) → Nat
  | [], seen => seen
  | (.literal _, level) :: pending, seen => deepestLevel pending (max seen level)
  | (.binary _ left right, level) :: pending, seen =>
    deepestLevel ((right, level + 1) :: (left, level + 1) :: pending) (max seen level)
termination_by pending => pending.foldr (fun entry total => entry.1.size + total) 0
decreasing_by
  all_goals
    simp only [List.foldr_cons, size]
    omega

/-- The number of levels of a tree. -/
def depth (e : Expr) : Nat := deepestLevel [(e, 1)] 0

end Abacus.Expr
