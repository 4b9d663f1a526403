import Abacus.Expr.Depth
import Abacus.Expr.Text

/-!
# Loops over trees and recursion

The text and the depth of an expression are computed by loops that keep what is still
to be visited in a list. Here each loop is taken apart into its rounds and compared with
recursion over the tree.

Results:
1. `rounds_text`, `text_eq_spelling`: writing a tree appends its text by recursion to what
   is already written, whatever else is to be written.
2. `rounds_depth`, `depth_eq_height`: visiting a tree raises the deepest level seen to the
   one its height leads to, whatever else is to be visited.
3. `loops_follow_recursion`: both loops end, after a number of rounds that the tree tells,
   and the equations of the recursion hold of what they end with.
-/

namespace Abacus

/-! ## 1. Rounds -/

/-- A loop gets from one state to another in a number of rounds. There is no round where
the loop ends. -/
inductive Rounds {σ : Type} (round : σ → Option σ) : Nat → σ → σ → Prop
  | none (s : σ) : Rounds round 0 s s
  | more {n : Nat} {s s' t : σ} : round s = some s' → Rounds round n s' t →
      Rounds round (n + 1) s t

/-- A loop ends after this number of rounds. -/
structure EndsAfter {σ : Type} (round : σ → Option σ) (n : Nat) (s t : σ) : Prop where
  rounds : Rounds round n s t
  ended : round t = Option.none

namespace Rounds

variable {σ α : Type} {round : σ → Option σ} {m n : Nat} {s t u : σ}

theorem trans (h : Rounds round m s t) (h' : Rounds round n t u) : Rounds round (n + m) s u := by
  induction h with
  | none s => exact h'
  | more hround _ ih => exact .more hround (ih h')

/-- What every round keeps is kept by any number of them. -/
theorem keep {f : σ → α} (hkeep : ∀ s s', round s = some s' → f s = f s')
    (h : Rounds round n s t) : f s = f t := by
  induction h with
  | none s => rfl
  | more hround _ ih => exact (hkeep _ _ hround).trans ih

end Rounds

namespace Expr

/-! ## 2. Text -/

/-- The text of an expression by recursion. -/
def spelling : Expr → String
  | .literal value => Numeral.ofNat value.toNat
  | .binary op left right =>
    "(" ++ left.spelling ++ (" " ++ op.text ++ " ") ++ right.spelling ++ ")"

/-- A round of the loop that writes takes the first piece off the list. A text and a number
are written, and a tree with an operator is put back in parts. -/
def writeRound : List Piece × String → Option (List Piece × String)
  | ([], _) => none
  | (.text s :: pending, written) => some (pending, written ++ s)
  | (.tree (.literal value) :: pending, written) =>
    some (pending, written ++ Numeral.ofNat value.toNat)
  | (.tree (.binary op left right) :: pending, written) =>
    some (.text "(" :: .tree left :: .text (" " ++ op.text ++ " ") :: .tree right :: .text ")" ::
      pending, written)

theorem writePieces_round (s s' : List Piece × String) (h : writeRound s = some s') :
    writePieces s.1 s.2 = writePieces s'.1 s'.2 := by
  unfold writeRound at h
  split at h
  · cases h
  all_goals
    cases h
    conv => lhs; rw [writePieces]

theorem rounds_text (e : Expr) (pending : List Piece) (written : String) :
    Rounds writeRound e.pieceCount (.tree e :: pending, written)
      (pending, written ++ e.spelling) := by
  induction e generalizing pending written with
  | literal value => exact .more rfl (.none _)
  | binary op left right ihl ihr =>
    have htext (s : String) (pending : List Piece) (written : String) :
        Rounds writeRound 1 (.text s :: pending, written) (pending, written ++ s) :=
      .more rfl (.none _)
    have hparts := (htext "(" _ written).trans ((ihl _ _).trans
      ((htext (" " ++ op.text ++ " ") _ _).trans ((ihr _ _).trans (htext ")" pending _))))
    have hcount : (binary op left right).pieceCount =
        1 + right.pieceCount + 1 + left.pieceCount + 1 + 1 := by
      rw [pieceCount]
      omega
    rw [hcount, spelling]
    simp only [String.append_assoc] at hparts ⊢
    exact .more rfl hparts

theorem writePieces_tree (e : Expr) (pending : List Piece) (written : String) :
    writePieces (.tree e :: pending) written = writePieces pending (written ++ e.spelling) :=
  (rounds_text e pending written).keep (f := fun s => writePieces s.1 s.2) writePieces_round

theorem text_eq_spelling (e : Expr) : e.text = e.spelling := by
  rw [text, writePieces_tree, writePieces, String.empty_append]

/-! ## 3. Depth -/

/-- The number of levels of a tree by recursion. -/
def height : Expr → Nat
  | .literal _ => 1
  | .binary _ left right => max left.height right.height + 1

theorem one_le_height (e : Expr) : 1 ≤ e.height := by
  cases e with
  | literal value => exact Nat.le_refl 1
  | binary op left right => exact Nat.le_add_left 1 _

/-- A round of the loop that counts levels takes the first tree off the list and notes its
level. The operands are put back, one level deeper. -/
def levelRound : List (Expr × Nat) × Nat → Option (List (Expr × Nat) × Nat)
  | ([], _) => none
  | ((.literal _, level) :: pending, seen) => some (pending, max seen level)
  | ((.binary _ left right, level) :: pending, seen) =>
    some ((right, level + 1) :: (left, level + 1) :: pending, max seen level)

theorem deepestLevel_round (s s' : List (Expr × Nat) × Nat) (h : levelRound s = some s') :
    deepestLevel s.1 s.2 = deepestLevel s'.1 s'.2 := by
  unfold levelRound at h
  split at h
  · cases h
  all_goals
    cases h
    conv => lhs; rw [deepestLevel]

theorem rounds_depth (e : Expr) (level : Nat) (pending : List (Expr × Nat)) (seen : Nat) :
    Rounds levelRound e.size ((e, level) :: pending, seen)
      (pending, max seen (level + e.height - 1)) := by
  induction e generalizing level pending seen with
  | literal value => exact .more rfl (.none _)
  | binary op left right ihl ihr =>
    have hl := left.one_le_height
    have hr := right.one_le_height
    have hparts := (ihr (level + 1) ((left, level + 1) :: pending) (max seen level)).trans
      (ihl (level + 1) pending _)
    -- The level of the node itself lies below those of its operands.
    have hdeepest : max (max (max seen level) (level + 1 + right.height - 1))
        (level + 1 + left.height - 1) =
          max seen (level + (binary op left right).height - 1) := by
      rw [height]
      omega
    rw [hdeepest] at hparts
    exact .more rfl hparts

theorem deepestLevel_tree (e : Expr) (level : Nat) (pending : List (Expr × Nat)) (seen : Nat) :
    deepestLevel ((e, level) :: pending) seen =
      deepestLevel pending (max seen (level + e.height - 1)) :=
  (rounds_depth e level pending seen).keep (f := fun s => deepestLevel s.1 s.2) deepestLevel_round

theorem depth_eq_height (e : Expr) : e.depth = e.height := by
  rw [depth, deepestLevel_tree, deepestLevel]
  omega

/-! ## 4. Both loops -/

/-- The loop that writes an expression and the loop that counts its levels end, each after
exactly as many rounds as the tree has pieces or nodes, with nothing left to visit. What
they end with obeys recursion over the tree: a literal is written in decimal and has one
level, and an operator is written with its operands in parentheses and has one level more
than the deeper operand. -/
theorem loops_follow_recursion :
    (∀ e : Expr,
      EndsAfter writeRound e.pieceCount ([.tree e], "") ([], e.text) ∧
      EndsAfter levelRound e.size ([(e, 1)], 0) ([], e.depth)) ∧
    (∀ value : UInt64,
      (literal value).text = value.toNat.repr ∧ (literal value).depth = 1) ∧
    ∀ (op : Operator) (left right : Expr),
      (binary op left right).text =
        "(" ++ left.text ++ " " ++ op.text ++ " " ++ right.text ++ ")" ∧
      (binary op left right).depth = max left.depth right.depth + 1 := by
  refine ⟨fun e => ⟨⟨?_, rfl⟩, ⟨?_, rfl⟩⟩, fun value => ⟨?_, ?_⟩, fun op left right => ⟨?_, ?_⟩⟩
  · have hrounds := rounds_text e [] ""
    rwa [String.empty_append, ← text_eq_spelling] at hrounds
  · have hrounds := rounds_depth e 1 [] 0
    rwa [Nat.zero_max, Nat.add_sub_cancel_left, ← depth_eq_height] at hrounds
  · rw [text_eq_spelling, spelling, Numeral.ofNat_eq_repr]
  · rw [depth_eq_height, height]
  · rw [text_eq_spelling, text_eq_spelling, text_eq_spelling, spelling]
    simp only [String.append_assoc]
  · rw [depth_eq_height, depth_eq_height, depth_eq_height, height]

end Expr

end Abacus
