import Abacus.Calculator
import Abacus.Proofs.Nesting
import Abacus.Proofs.Rescanning

/-!
# Writing an expression and reading it back

The text of an expression puts every operator into parentheses of its own, so it nests
one parenthesis for each level of the tree but the last. It is read back as the same
expression exactly as long as the limit allows for that.

Results:
1. `Expr.derivation`: the grammar derives the tokens an expression is spelled with, the
   expression is what the derivation denotes, and its parentheses nest one level less
   than the tree.
2. `parse_text`: the text of an expression is read back as that expression up to the
   limit, and refused as nested too deeply beyond it.
-/

namespace Abacus

/-! ## 1. A derivation of the text -/

/-- The rule that joins its operands by an operator. -/
def Operator.rule : Operator → Rule
  | .add | .sub => .expression
  | .mul | .div => .term

theorem Operator.rule_ne_factor (op : Operator) : op.rule ≠ .factor := by
  cases op <;> decide

theorem Operator.mem_operators_rule (op : Operator) : op ∈ op.rule.operators := by
  cases op <;> decide

namespace Derivation

/-- A factor is an operand of any operator. -/
def asOperand (d : Derivation .factor) : (rule : Rule) → Derivation rule.operand
  | .expression => .chain nofun d .nil
  | .term | .factor => d

/-- A phrase of any rule is an expression. -/
def asExpression : {rule : Rule} → Derivation rule → Derivation .expression
  | .expression, d => d
  | .term, d => .chain nofun d .nil
  | .factor, d => .chain nofun (.chain nofun d .nil : Derivation .term) .nil

/-- Two factors joined by an operator. -/
def join (op : Operator) (left right : Derivation .factor) : Derivation op.rule :=
  .chain op.rule_ne_factor (left.asOperand op.rule)
    (.cons op op.mem_operators_rule (right.asOperand op.rule) .nil)

end Derivation

/-- The derivation of the text of an expression. -/
def Expr.derivation : Expr → Derivation .factor
  | .literal value => .number value
  | .binary op left right => .group (left.derivation.join op right.derivation).asExpression

namespace RoundTripLemmas

theorem tokens_asOperand (d : Derivation .factor) (rule : Rule) :
    (d.asOperand rule).tokens = d.tokens := by
  cases rule with
  | expression => exact List.append_nil _
  | term | factor => rfl

theorem tree_asOperand (d : Derivation .factor) (rule : Rule) :
    (d.asOperand rule).tree = d.tree := by
  cases rule <;> rfl

theorem nesting_asOperand (d : Derivation .factor) (rule : Rule) :
    (d.asOperand rule).nesting = d.nesting := by
  cases rule with
  | expression => exact Nat.max_zero _
  | term | factor => rfl

theorem tokens_asExpression {rule : Rule} (d : Derivation rule) :
    d.asExpression.tokens = d.tokens := by
  cases rule with
  | expression => rfl
  | term => exact List.append_nil _
  | factor =>
    show (d.tokens ++ []) ++ [] = d.tokens
    rw [List.append_nil, List.append_nil]

theorem tree_asExpression {rule : Rule} (d : Derivation rule) : d.asExpression.tree = d.tree := by
  cases rule <;> rfl

theorem nesting_asExpression {rule : Rule} (d : Derivation rule) :
    d.asExpression.nesting = d.nesting := by
  cases rule with
  | expression => rfl
  | term => exact Nat.max_zero _
  | factor =>
    show max (max d.nesting 0) 0 = d.nesting
    rw [Nat.max_zero, Nat.max_zero]

variable {op : Operator} {left right : Derivation .factor}

theorem tokens_join :
    (left.join op right).tokens = left.tokens ++ .operator op :: right.tokens := by
  show (left.asOperand op.rule).tokens ++
    (.operator op :: (right.asOperand op.rule).tokens ++ []) = _
  rw [tokens_asOperand, tokens_asOperand, List.append_nil]

theorem tree_join : (left.join op right).tree = .binary op left.tree right.tree := by
  show Expr.binary op (left.asOperand op.rule).tree (right.asOperand op.rule).tree = _
  rw [tree_asOperand, tree_asOperand]

theorem nesting_join : (left.join op right).nesting = max left.nesting right.nesting := by
  show max (left.asOperand op.rule).nesting (max (right.asOperand op.rule).nesting 0) = _
  rw [nesting_asOperand, nesting_asOperand, Nat.max_zero]

end RoundTripLemmas

open RoundTripLemmas

namespace Expr

theorem tokens_derivation (e : Expr) : e.derivation.tokens = e.spelled := by
  induction e with
  | literal value => rfl
  | binary op left right ihl ihr =>
    rw [derivation, Derivation.tokens, tokens_asExpression, tokens_join, ihl, ihr, spelled]
    simp only [List.cons_append, List.append_assoc]

theorem tree_derivation (e : Expr) : e.derivation.tree = e := by
  induction e with
  | literal value => rfl
  | binary op left right ihl ihr =>
    rw [derivation, Derivation.tree, tree_asExpression, tree_join, ihl, ihr]

/-- The parentheses nest one level less than the tree has levels. -/
theorem nesting_derivation (e : Expr) : e.derivation.nesting + 1 = e.height := by
  induction e with
  | literal value => rfl
  | binary op left right ihl ihr =>
    rw [derivation, Derivation.nesting, nesting_asExpression, nesting_join, height, ← ihl, ← ihr]
    omega

end Expr

/-! ## 2. Reading the text -/

/-- Writing an expression, scanning the text and reading the tokens gives back the
expression when its depth is at most one more than the nesting allowed, and otherwise
fails because the text is nested too deeply. -/
theorem parse_text (e : Expr) (limit : Int) :
    ((e.depth : Int) - 1 ≤ max limit 0 → Calculator.parse limit e.text = .ok e) ∧
    (max limit 0 < (e.depth : Int) - 1 →
      ∃ position, Calculator.parse limit e.text = .error (.parse (.tooDeep position limit))) := by
  have hparse : Calculator.parse limit e.text =
      (Expr.ofTokens limit e.spelled).mapError .parse := by
    rw [Calculator.parse, Calculator.scan, Token.scan_text]
    rfl
  have hread := ofTokens_derivation limit e.derivation.asExpression
  rw [tokens_asExpression, tree_asExpression, nesting_asExpression, e.tokens_derivation,
    e.tree_derivation] at hread
  obtain ⟨hok, hdeep⟩ := hread
  have hnesting : (e.depth : Int) - 1 = e.derivation.nesting := by
    rw [Expr.depth_eq_height, ← e.nesting_derivation]
    omega
  rw [hnesting, hparse]
  constructor
  · intro h
    rw [hok h]
    rfl
  · intro h
    obtain ⟨position, hposition⟩ := hdeep h
    refine ⟨position, ?_⟩
    rw [hposition]
    rfl

end Abacus
