import Abacus.Proofs.RoundTrip
import Abacus.Proofs.TwoStacks

/-!
# Expressions with their parentheses

A written expression is a tree that still holds the parentheses it is written with. It is
read back as the tree it shows when every operator binds its operands more loosely than
they are held together themselves. This can be told at each operator on its own, so it is
a handier account of the grammar than derivations where parentheses come and go.

Results:
1. `exists_written`, `exists_derivation`: derivations of the grammar and written
   expressions that are held together show the same trees on the same tokens.
2. `ofTokens_eq_ok_iff_written`: tokens are read as a tree exactly when some written
   expression that is held together has these tokens and shows that tree.
3. `exists_ofTokens_written`: the tokens of any written expression are read as some tree.
-/

namespace Abacus

/-! ## 1. Written expressions -/

/-- An expression with the parentheses it is written with. -/
inductive Written where
  | number (value : UInt64)
  | group (inner : Written)
  | join (op : Operator) (left right : Written)
  deriving DecidableEq, Repr

namespace Written

def tokens : Written → List Token
  | .number value => [.number value.toNat]
  | .group inner => .opening :: inner.tokens ++ [.closing]
  | .join op left right => left.tokens ++ .operator op :: right.tokens

/-- The tree that a written expression shows. Parentheses leave no node. -/
def tree : Written → Expr
  | .number value => .literal value
  | .group inner => inner.tree
  | .join op left right => .binary op left.tree right.tree

/-- How deep the parentheses nest. -/
def nesting : Written → Nat
  | .number _ => 0
  | .group inner => inner.nesting + 1
  | .join _ left right => max left.nesting right.nesting

/-- How tightly a written expression is held together: as tightly as its outermost
operator binds, or more tightly than by any operator if all of it is one number or one
pair of parentheses. -/
def level : Written → Nat
  | .number _ | .group _ => Rule.factor.level
  | .join op _ _ => op.precedence

/-- Every operator finds its operands held together: the left one at least as tightly as
it binds itself, since operators group to the left, and the right one more tightly. -/
def WellBound : Written → Prop
  | .number _ => True
  | .group inner => inner.WellBound
  | .join op left right =>
    op.precedence ≤ left.level ∧ op.precedence < right.level ∧ left.WellBound ∧ right.WellBound

instance decidableWellBound : (w : Written) → Decidable w.WellBound
  | .number _ => inferInstanceAs (Decidable True)
  | .group inner => decidableWellBound inner
  | .join op left right =>
    have := decidableWellBound left
    have := decidableWellBound right
    inferInstanceAs (Decidable (op.precedence ≤ left.level ∧ op.precedence < right.level ∧
      left.WellBound ∧ right.WellBound))

end Written

/-- A derivation and a written expression agree: on the tokens, on the tree, and on how
deep the parentheses nest. -/
structure Derivation.Spells {rule : Rule} (d : Derivation rule) (w : Written) : Prop where
  tokens : d.tokens = w.tokens
  tree : d.tree = w.tree
  nesting : d.nesting = w.nesting

/-- A written expression is another one that a repetition goes on with. -/
structure Repetition.Extends {rule : Rule} (more : Repetition rule) (left w : Written) :
    Prop where
  tokens : left.tokens ++ more.tokens = w.tokens
  tree : more.fold left.tree = w.tree
  nesting : max left.nesting more.nesting = w.nesting

/-! ## 2. From derivations to written expressions -/

open TwoStacksLemmas

mutual

/-- What a rule derives can be written so that it is held together at the level of the
rule. -/
theorem exists_written {rule : Rule} :
    (d : Derivation rule) → ∃ w : Written, d.Spells w ∧ w.WellBound ∧ rule.level ≤ w.level
  | .number value => ⟨.number value, ⟨rfl, rfl, rfl⟩, trivial, Nat.le_refl _⟩
  | .group inner => by
    obtain ⟨w, hspells, hbound, -⟩ := exists_written inner
    refine ⟨.group w, ⟨?_, hspells.tree, congrArg (· + 1) hspells.nesting⟩, hbound, Nat.le_refl _⟩
    rw [Derivation.tokens, hspells.tokens, Written.tokens]
  | .chain _ first more => by
    obtain ⟨left, hspells, hbound, hlevel⟩ := exists_written first
    have hleft : rule.level ≤ left.level := Nat.le_trans (level_le_operand rule) hlevel
    obtain ⟨w, hextends, hw⟩ := exists_written_repetition more hbound hleft
    refine ⟨w, ⟨?_, ?_, ?_⟩, hw⟩
    · rw [Derivation.tokens, hspells.tokens, hextends.tokens]
    · rw [Derivation.tree, hspells.tree, hextends.tree]
    · rw [Derivation.nesting, hspells.nesting, hextends.nesting]

theorem exists_written_repetition {rule : Rule} {left : Written} :
    (more : Repetition rule) → left.WellBound → rule.level ≤ left.level →
      ∃ w : Written, more.Extends left w ∧ w.WellBound ∧ rule.level ≤ w.level
  | .nil, hbound, hlevel => ⟨left, ⟨List.append_nil _, rfl, Nat.max_zero _⟩, hbound, hlevel⟩
  | .cons op joins operand more, hbound, hlevel => by
    obtain ⟨right, hspells, hright, hrightLevel⟩ := exists_written operand
    -- The operator stands at the level of its rule, below that of its operands.
    obtain ⟨hprecedence, hlt⟩ := level_of_mem joins
    have hjoin : (Written.join op left right).WellBound :=
      ⟨hprecedence ▸ hlevel, hprecedence ▸ Nat.lt_of_lt_of_le hlt hrightLevel, hbound, hright⟩
    obtain ⟨w, hextends, hw⟩ :=
      exists_written_repetition more hjoin (Nat.le_of_eq hprecedence.symm)
    refine ⟨w, ⟨?_, ?_, ?_⟩, hw⟩
    · rw [← hextends.tokens, Repetition.tokens, hspells.tokens, Written.tokens,
        List.append_assoc, List.cons_append]
    · rw [← hextends.tree, Repetition.fold, hspells.tree, Written.tree]
    · rw [← hextends.nesting, Repetition.nesting, hspells.nesting, Written.nesting, Nat.max_assoc]

end

/-! ## 3. From written expressions to derivations -/

/-- A repetition with one more operand at its end. -/
def Repetition.snoc {rule : Rule} (op : Operator) (joins : op ∈ rule.operators)
    (last : Derivation rule.operand) : Repetition rule → Repetition rule
  | .nil => .cons op joins last .nil
  | .cons op' joins' operand more => .cons op' joins' operand (more.snoc op joins last)

namespace BracketingLemmas

variable {rule : Rule} {op : Operator} {joins : op ∈ rule.operators}
  {last : Derivation rule.operand} {w left right : Written}

theorem tokens_snoc : (more : Repetition rule) →
    (more.snoc op joins last).tokens = more.tokens ++ .operator op :: last.tokens
  | .nil => List.append_nil _
  | .cons op' _ operand more => by
    rw [Repetition.snoc, Repetition.tokens, tokens_snoc more, Repetition.tokens,
      List.append_assoc]

theorem fold_snoc : (more : Repetition rule) → (first : Expr) →
    (more.snoc op joins last).fold first = .binary op (more.fold first) last.tree
  | .nil, _ => rfl
  | .cons op' _ operand more, first => by
    rw [Repetition.snoc, Repetition.fold, fold_snoc more, Repetition.fold]

theorem nesting_snoc : (more : Repetition rule) →
    (more.snoc op joins last).nesting = max more.nesting last.nesting
  | .nil => Nat.max_comm _ _
  | .cons op' _ operand more => by
    rw [Repetition.snoc, Repetition.nesting, nesting_snoc more, Repetition.nesting,
      Nat.max_assoc]

theorem spells_chain {d : Derivation rule.operand} (above : rule ≠ .factor) (h : d.Spells w) :
    (Derivation.chain above d .nil).Spells w :=
  ⟨(List.append_nil _).trans h.tokens, h.tree, (Nat.max_zero _).trans h.nesting⟩

/-- What a rule derives is derived by every looser rule too. -/
theorem exists_spells_looser {rule' : Rule} {d : Derivation rule} (h : d.Spells w)
    (hle : rule'.level ≤ rule.level) : ∃ d' : Derivation rule', d'.Spells w := by
  have hexpression : Rule.expression ≠ .factor := by decide
  have hterm : Rule.term ≠ .factor := by decide
  cases rule with
  | expression =>
    cases rule' with
    | expression => exact ⟨d, h⟩
    | term | factor => exact absurd hle (by decide)
  | term =>
    cases rule' with
    | expression => exact ⟨_, spells_chain hexpression h⟩
    | term => exact ⟨d, h⟩
    | factor => exact absurd hle (by decide)
  | factor =>
    have hchain := spells_chain hterm h
    cases rule' with
    | expression => exact ⟨_, spells_chain hexpression hchain⟩
    | term => exact ⟨_, hchain⟩
    | factor => exact ⟨d, h⟩

/-- A phrase of a rule is joined with one more operand by an operator of the rule. -/
theorem exists_spells_join {d : Derivation rule} (above : rule ≠ .factor)
    (joins : op ∈ rule.operators) (hleft : d.Spells left) (hright : last.Spells right) :
    ∃ d' : Derivation rule, d'.Spells (.join op left right) := by
  cases d with
  | number value => exact absurd rfl above
  | group inner => exact absurd rfl above
  | chain _ first more =>
    refine ⟨.chain above first (more.snoc op joins last), ?_, ?_, ?_⟩
    · rw [Derivation.tokens, tokens_snoc, ← List.append_assoc, hright.tokens, Written.tokens,
        ← hleft.tokens, Derivation.tokens]
    · rw [Derivation.tree, fold_snoc, hright.tree, Written.tree, ← hleft.tree, Derivation.tree]
    · rw [Derivation.nesting, nesting_snoc, ← Nat.max_assoc, hright.nesting, Written.nesting,
        ← hleft.nesting, Derivation.nesting]

/-- An operator stands at the level of its rule, and its right operand one above. -/
theorem level_rule (op : Operator) :
    op.rule.level = op.precedence ∧ op.rule.operand.level = op.precedence + 1 := by
  cases op <;> decide

theorem precedence_lt_factor (op : Operator) : op.precedence < Rule.factor.level := by
  cases op <;> decide

/-- Any written expression is held together at the loosest level. -/
theorem expression_level_le (w : Written) : Rule.expression.level ≤ w.level := by
  cases w with
  | number value => exact Nat.le_add_left 1 2
  | group inner => exact Nat.le_add_left 1 2
  | join op left right =>
    show 1 ≤ op.precedence
    cases op <;> decide

end BracketingLemmas

open BracketingLemmas

/-- What is held together is derived by every rule whose level it reaches. -/
theorem exists_derivation {w : Written} (h : w.WellBound) {rule : Rule}
    (hlevel : rule.level ≤ w.level) : ∃ d : Derivation rule, d.Spells w := by
  induction w generalizing rule with
  | number value => exact exists_spells_looser (d := .number value) ⟨rfl, rfl, rfl⟩ hlevel
  | group inner ih =>
    obtain ⟨d, hspells⟩ := ih h (expression_level_le inner)
    have htokens : (Derivation.group d).tokens = (Written.group inner).tokens := by
      rw [Derivation.tokens, hspells.tokens, Written.tokens]
    exact exists_spells_looser (d := .group d)
      ⟨htokens, hspells.tree, congrArg (· + 1) hspells.nesting⟩ hlevel
  | join op left right ihl ihr =>
    obtain ⟨hleft, hright, hboundLeft, hboundRight⟩ := h
    obtain ⟨hrule, hoperand⟩ := level_rule op
    have hleftLevel : op.rule.level ≤ left.level := hrule ▸ hleft
    have hrightLevel : op.rule.operand.level ≤ right.level := hoperand ▸ hright
    obtain ⟨d, hd⟩ := ihl hboundLeft hleftLevel
    obtain ⟨last, hlast⟩ := ihr hboundRight hrightLevel
    obtain ⟨d', hd'⟩ := exists_spells_join op.rule_ne_factor op.mem_operators_rule hd hlast
    exact exists_spells_looser hd' (hrule ▸ hlevel)

/-! ## 4. Reading written expressions -/

/-- Tokens are read as a tree exactly when they are those of a written expression that is
held together, shows that tree, and nests its parentheses within the limit. -/
theorem ofTokens_eq_ok_iff_written {limit : Int} {ts : List Token} {tree : Expr} :
    Expr.ofTokens limit ts = .ok tree ↔
      ∃ w : Written, w.WellBound ∧ w.tokens = ts ∧ w.tree = tree ∧
        (w.nesting : Int) ≤ max limit 0 := by
  rw [ofTokens_eq_ok]
  constructor
  · rintro ⟨d, htokens, htree, hnesting⟩
    obtain ⟨w, hspells, hbound, -⟩ := exists_written d
    exact ⟨w, hbound, hspells.tokens ▸ htokens, hspells.tree ▸ htree, hspells.nesting ▸ hnesting⟩
  · rintro ⟨w, hbound, rfl, rfl, hnesting⟩
    obtain ⟨d, hspells⟩ := exists_derivation hbound (expression_level_le w)
    exact ⟨d, hspells.tokens, hspells.tree, hspells.nesting ▸ hnesting⟩

open Outlook GrammarLemmas OutlookLemmas

/-- The pass over a written expression does not ask how tightly it is held together. -/
theorem run_written {limit : Int} {depth position : Nat} {w : Written}
    (h : Nests limit depth w.nesting) :
    run limit position ⟨true, depth⟩ w.tokens = .ok ⟨false, depth⟩ := by
  induction w generalizing depth position with
  | number value =>
    rw [Written.tokens, run, step, literal?_eq_ok.mpr rfl]
    rfl
  | group inner ih =>
    obtain ⟨hdepth, hinner⟩ := nests_succ.mp h
    have hstep : step limit position ⟨true, depth⟩ .opening = .ok ⟨true, depth + 1⟩ := if_neg hdepth
    rw [Written.tokens, List.cons_append, run_cons hstep]
    exact run_append (ih hinner)
  | join op left right ihl ihr =>
    obtain ⟨hleft, hright⟩ := nests_max.mp h
    rw [Written.tokens, run_append (ihl hleft)]
    exact ihr hright

/-- The tokens of any written expression are read as some tree, though perhaps not as the
one it shows. -/
theorem exists_ofTokens_written {limit : Int} {w : Written}
    (h : (w.nesting : Int) ≤ max limit 0) : ∃ tree, Expr.ofTokens limit w.tokens = .ok tree := by
  rw [exists_ofTokens_eq_ok, verdict, run_written (nests_zero.mpr h)]
  rfl

end Abacus
