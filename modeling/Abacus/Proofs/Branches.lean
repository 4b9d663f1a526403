import Abacus.CommandLine.Listing
import Abacus.Proofs.Traversal

/-!
# Growing and drawing branches

The drawing of an expression is defined by recursion over its tree. A terminal is handed
something else: branches with labels, which a loop grows one at a time while the nodes still
to be shown wait in a list, and which are drawn with breaks in labels that do not fit. Both
come to the same drawing as long as every label fits.

Results:
1. `graft_graft`: what is added below a branch just added becomes a part of it.
2. `grow_cons`, `build_eq_mirror`: the loop grows the branches of each tree where the tree
   was to be shown, whatever else waits, so that in the end there is one for each node, the
   left operand in front of the right one.
3. `lines_mirror`, `lines_build`: drawing these branches gives the drawing of the expression
   where there is room for the widest label below the deepest guides.
-/

namespace Abacus

/-! ## 1. Branches -/

/-- A label with the branches below it, from top to bottom. -/
inductive Branch where
  | node (label : String) (children : List Branch)

namespace Branch

/-- The branches with a new one behind those below the branch at a path. A path names a
branch by the places of the branches that lead to it. Nothing is added where a path leads
nowhere. -/
def graft : (path : List Nat) → (new : Branch) → Branch → Branch
  | [], new, .node label children => .node label (children ++ [new])
  | i :: path, new, .node label children => .node label (children.modify i (graft path new))

/-- The path that the next branch to be added below the one at a path will have. -/
def slot : (path : List Nat) → Branch → List Nat
  | [], .node _ children => [children.length]
  | i :: path, .node _ children =>
    match children[i]? with
    | some child => i :: slot path child
    | none => [i]

/-- Adds a label below the branch at a path. The result is all of the branches, and the path
of the new one. -/
def add (parent : List Nat) (label : String) (all : Branch) : Branch × List Nat :=
  (graft parent (.node label []) all, slot parent all)

/-- A change at one place of a list depends on the element there. -/
theorem modify_congr {f g : Branch → Branch} {children : List Branch} {i : Nat}
    (h : ∀ child, children[i]? = some child → f child = g child) :
    children.modify i f = children.modify i g := by
  refine List.ext_getElem? fun j => ?_
  rw [List.getElem?_modify, List.getElem?_modify]
  by_cases hij : i = j
  · subst hij
    cases hchild : children[i]? with
    | none => rfl
    | some child => simp [h child hchild]
  · simp [hij]

/-- What is added below a branch just added becomes a part of it. -/
theorem graft_graft (path : List Nat) (label : String) (children : List Branch)
    (new all : Branch) :
    graft (slot path all) new (graft path (.node label children) all) =
      graft path (.node label (children ++ [new])) all := by
  induction path generalizing all with
  | nil =>
    obtain ⟨root, below⟩ := all
    show Branch.node root ((below ++ [_]).modify below.length _) = _
    rw [List.modify_eq_take_cons_drop (by simp)]
    simp [graft]
  | cons i path ih =>
    obtain ⟨root, below⟩ := all
    rw [slot, graft, graft]
    cases hchild : below[i]? with
    | some child =>
      dsimp only
      rw [graft, List.modify_modify_eq]
      refine congrArg (Branch.node root) (modify_congr fun child' hchild' => ?_)
      obtain rfl := Option.some.inj (hchild.symm.trans hchild')
      exact ih child
    | none =>
      -- No branch is there, so nothing is added at all.
      have hbeyond := List.getElem?_eq_none_iff.mp hchild
      dsimp only
      rw [List.modify_eq_self hbeyond, List.modify_eq_self hbeyond, graft,
        List.modify_eq_self hbeyond]

end Branch

/-! ## 2. The branches of an expression -/

namespace Expr

/-- Shows the nodes still to be shown, each below the branch at a path. The operands of an
operator come next, the left one first, below the branch just added. -/
def grow : (pending : List (Expr × List Nat)) → (all : Branch) → Branch
  | [], all => all
  | (.literal value, parent) :: pending, all =>
    grow pending (all.add parent (literal value).label).1
  | (.binary op left right, parent) :: pending, all =>
    let (all, path) := all.add parent (binary op left right).label
    grow ((left, path) :: (right, path) :: pending) all
termination_by pending => pending.foldr (fun entry total => entry.1.size + total) 0
decreasing_by
  all_goals
    simp only [List.foldr_cons, size]
    omega

/-- The branches that show an expression, grown from its root. -/
def build : Expr → Branch
  | .literal value => grow [] (.node (literal value).label [])
  | .binary op left right =>
    grow [(left, []), (right, [])] (.node (binary op left right).label [])

/-- The branches that show an expression, by recursion. -/
def mirror : Expr → Branch
  | .literal value => .node (literal value).label []
  | .binary op left right => .node (binary op left right).label [left.mirror, right.mirror]

/-- The loop adds all of a tree where its root was to be shown. -/
theorem grow_cons (e : Expr) (parent : List Nat) (pending : List (Expr × List Nat))
    (all : Branch) :
    grow ((e, parent) :: pending) all = grow pending (Branch.graft parent e.mirror all) := by
  induction e generalizing parent pending all with
  | literal value =>
    rw [grow]
    rfl
  | binary op left right ihl ihr =>
    rw [grow, Branch.add]
    dsimp only
    rw [ihl, ihr, Branch.graft_graft, List.nil_append, Branch.graft_graft]
    rfl

theorem build_eq_mirror (e : Expr) : e.build = e.mirror := by
  cases e with
  | literal value =>
    rw [build, grow]
    rfl
  | binary op left right =>
    rw [build, grow_cons, grow_cons, grow]
    rfl

end Expr

/-! ## 3. Drawing branches -/

namespace Branch

mutual

/-- The lines that draw some branches in a number of columns. Labels are broken into lines
by `wrap`. Guides of four columns lead from a label to the branches below it. -/
def lines (wrap : Nat → String → List String) (columns : Nat) : Branch → List String
  | .node label children => wrap columns label ++ linesBelow wrap (columns - 4) children

/-- The lines that draw the branches below a label. -/
def linesBelow (wrap : Nat → String → List String) (columns : Nat) : List Branch → List String
  | [] => []
  | [last] => Expr.hang "└── " "    " (last.lines wrap columns)
  | child :: next :: more =>
    Expr.hang "├── " "│   " (child.lines wrap columns) ++ linesBelow wrap columns (next :: more)

end

end Branch

/-- A label that fits is left on one line. A label is made of digits or is a single operator,
so it has as many columns as characters. -/
def LeavesFitting (wrap : Nat → String → List String) : Prop :=
  ∀ (columns : Nat) (e : Expr), e.label.length ≤ columns → wrap columns e.label = [e.label]

namespace Expr

/-- The columns that the widest label takes, a number of twenty digits. -/
def widestLabel : Nat := 20

theorem length_label (e : Expr) : e.label.length ≤ widestLabel := by
  cases e with
  | literal value =>
    have hvalue : value.toNat < 10 ^ 20 :=
      Nat.lt_of_le_of_lt (toNat_le_maxValue value) (by decide)
    rw [label, ← String.length_toList, Numeral.toList_ofNat, Numeral.digits_eq_toDigits]
    exact (Nat.length_toDigits_le_iff (by decide) (by decide)).mpr hvalue
  | binary op left right =>
    rw [label, Operator.text, String.length_singleton]
    decide

variable {wrap : Nat → String → List String} {columns : Nat}

theorem wrap_label (hwrap : LeavesFitting wrap) (hroom : widestLabel ≤ columns) (e : Expr) :
    wrap columns e.label = [e.label] :=
  hwrap columns e (Nat.le_trans e.length_label hroom)

/-- With room for the widest label below the deepest guides no label is broken. -/
theorem lines_mirror (hwrap : LeavesFitting wrap) (e : Expr)
    (hroom : 4 * (e.height - 1) + widestLabel ≤ columns) :
    e.mirror.lines wrap columns = e.drawing := by
  induction e generalizing columns with
  | literal value =>
    rw [mirror, Branch.lines, wrap_label hwrap (Nat.le_trans (Nat.le_add_left _ _) hroom)]
    rfl
  | binary op left right ihl ihr =>
    have hl := left.one_le_height
    have hr := right.one_le_height
    rw [height] at hroom
    have hleft : left.mirror.lines wrap (columns - 4) = left.drawing := ihl (by omega)
    have hright : right.mirror.lines wrap (columns - 4) = right.drawing := ihr (by omega)
    rw [mirror, Branch.lines, Branch.linesBelow, Branch.linesBelow, hleft, hright,
      wrap_label hwrap (by omega)]
    rfl

/-- Up to sixteen levels, eighty columns are enough for the branches that the loop grows. -/
theorem lines_build (hwrap : LeavesFitting wrap) {e : Expr} (hdepth : e.depth ≤ 16) :
    e.build.lines wrap 80 = e.drawing := by
  have hheight := e.one_le_height
  rw [depth_eq_height] at hdepth
  rw [build_eq_mirror]
  refine lines_mirror hwrap e ?_
  rw [widestLabel]
  omega

end Expr

end Abacus
