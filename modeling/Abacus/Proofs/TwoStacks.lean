import Abacus.Proofs.Evaluation
import Abacus.Proofs.Grammar

/-!
# Evaluation without a tree

Tokens can be evaluated in one pass from left to right on two stacks, one of values and
one of operators and parentheses that wait. An operator is applied as soon as the next
one binds no tighter, a parenthesis closes, or the tokens end. Here that pass is
compared with reading an expression and evaluating it.

Results:
1. `settle_pushAll_derivation`: a phrase leaves its value on the stack of values and the
   stacks below as they were, or stops with its fault, once the operators that wait
   inside it are applied.
2. `eval_eq_evaluateTokens`: on tokens that form an expression the pass has the outcome
   of the expression, the same value or the same fault.
-/

namespace Abacus

/-! ## 1. Two stacks -/

/-- What waits until more tokens are read. -/
inductive Waiting where
  | operator (op : Operator)
  | opening
  deriving DecidableEq, Repr

/-- What waits and the values found so far, the latest first. -/
structure Stacks where
  waiting : List Waiting
  values : List Int
  deriving DecidableEq, Repr

namespace Stacks

/-- Applies an operator to the two values on top. -/
def applyTop (op : Operator) : List Int → Except EvalFault (List Int)
  | right :: left :: values => (Draft.applyText op.text left right).map (· :: values)
  | _ => .error .unbalanced

/-- Applies the waiting operators on top that bind at least as tightly as `level`. At
level one that is all of them down to a parenthesis. -/
def unwind (level : Nat) : (waiting : List Waiting) → (values : List Int) →
    Except EvalFault Stacks
  | .operator op :: waiting, values =>
    if level ≤ op.precedence then applyTop op values >>= unwind level waiting
    else .ok ⟨.operator op :: waiting, values⟩
  | waiting, values => .ok ⟨waiting, values⟩

def settle (level : Nat) (s : Stacks) : Except EvalFault Stacks :=
  unwind level s.waiting s.values

def wait (w : Waiting) (s : Stacks) : Stacks := ⟨w :: s.waiting, s.values⟩

def hold (v : Int) (s : Stacks) : Stacks := ⟨s.waiting, v :: s.values⟩

/-- Takes the parenthesis off that waits on top. -/
def unwrap (s : Stacks) : Except EvalFault Stacks :=
  match s.waiting with
  | .opening :: waiting => .ok ⟨waiting, s.values⟩
  | _ => .error .unbalanced

def push (s : Stacks) : Token → Except EvalFault Stacks
  | .number v => .ok (s.hold v)
  | .operator op => (s.settle op.precedence).map (wait (.operator op))
  | .opening => .ok (s.wait .opening)
  | .closing => s.settle 1 >>= unwrap

def pushAll (s : Stacks) (ts : List Token) : Except EvalFault Stacks := ts.foldlM push s

/-- The value that is left when nothing waits. -/
def result (s : Stacks) : Except EvalFault Int :=
  match s with
  | ⟨[], [v]⟩ => .ok v
  | _ => .error .unbalanced

end Stacks

open Stacks

/-- The value of some tokens by one pass on two stacks. -/
def evaluateTokens (ts : List Token) : Except EvalFault Int :=
  pushAll ⟨[], []⟩ ts >>= settle 1 >>= result

/-! ## 2. Settling -/

/-- How tightly a rule binds: its operators have this precedence, and a factor, which has
none, binds more tightly than any of them. -/
def Rule.level : Rule → Nat
  | .expression => 1
  | .term => 2
  | .factor => 3

/-- No operator on top binds as tightly as `level`. -/
def Stacks.Settled (level : Nat) (s : Stacks) : Prop :=
  ∀ op more, s.waiting = .operator op :: more → op.precedence < level

namespace TwoStacksLemmas

variable {level low high : Nat} {s : Stacks} {v : Int} {op : Operator} {rule : Rule}

theorem level_of_mem (h : op ∈ rule.operators) :
    op.precedence = rule.level ∧ rule.level < rule.operand.level := by
  revert h
  cases rule <;> cases op <;> decide

theorem level_le_operand (rule : Rule) : rule.level ≤ rule.operand.level := by
  cases rule <;> decide

theorem settled_mono (hle : low ≤ high) (h : s.Settled low) : s.Settled high := by
  intro op more hwaiting
  exact Nat.lt_of_lt_of_le (h op more hwaiting) hle

theorem settled_opening : (s.wait .opening).Settled level := nofun

theorem settled_operator (h : op.precedence < level) : (s.wait (.operator op)).Settled level := by
  intro op' more hwaiting
  obtain ⟨⟨⟩, -⟩ := List.cons.inj hwaiting
  exact h

theorem settle_of_settled (h : s.Settled level) : s.settle level = .ok s := by
  obtain ⟨_ | ⟨op | _, waiting⟩, values⟩ := s
  · rfl
  · exact if_neg (Nat.not_le.mpr (h op waiting rfl))
  · rfl

theorem settle_operator (h : level ≤ op.precedence) :
    (s.wait (.operator op)).settle level = applyTop op s.values >>= unwind level s.waiting :=
  if_pos h

/-- Settling at a level and then at a looser one is settling at the looser one. -/
theorem settle_settle (hle : low ≤ high) (s : Stacks) :
    s.settle high >>= settle low = s.settle low := by
  obtain ⟨waiting, values⟩ := s
  -- By what waits: the first goes on while the operators bind tightly enough for both.
  induction waiting generalizing values with
  | nil => rfl
  | cons w waiting ih =>
    cases w with
    | opening => rfl
    | operator op =>
      show (wait (.operator op) ⟨waiting, values⟩).settle high >>= _ =
        (wait (.operator op) ⟨waiting, values⟩).settle low
      by_cases hhigh : high ≤ op.precedence
      · rw [settle_operator hhigh, settle_operator (Nat.le_trans hle hhigh), bind_assoc]
        exact congrArg _ (funext ih)
      · rw [settle_of_settled (settled_operator (Nat.lt_of_not_le hhigh))]
        rfl

/-- A value on top does not keep the stacks from being settled. -/
theorem settle_map_hold (hs : s.Settled level) (e : Except EvalFault Int) :
    (e.map fun v => s.hold v) >>= settle level = e.map fun v => s.hold v := by
  cases e with
  | error fault => rfl
  | ok v => exact settle_of_settled (s := s.hold v) hs

/-- What leaves a value once it is settled can be settled further. -/
theorem settle_looser {c : Except EvalFault Stacks} {e : Except EvalFault Int} (hle : low ≤ high)
    (h : c >>= settle high = e.map fun v => s.hold v) :
    c >>= settle low = (e.map fun v => s.hold v) >>= settle low := by
  rw [← h, bind_assoc]
  exact congrArg _ (funext fun s' => (settle_settle hle s').symm)

end TwoStacksLemmas

open TwoStacksLemmas

/-! ## 3. Phrases -/

namespace TwoStacksLemmas

theorem pushAll_append (s : Stacks) (ts more : List Token) :
    pushAll s (ts ++ more) = pushAll s ts >>= fun s => pushAll s more :=
  List.foldlM_append

theorem pushAll_closing (s : Stacks) : pushAll s [.closing] = s.settle 1 >>= unwrap :=
  bind_pure _

theorem pushAll_operator (s : Stacks) (op : Operator) (ts : List Token) :
    pushAll s (.operator op :: ts) =
      s.settle op.precedence >>= fun s => pushAll (s.wait (.operator op)) ts := by
  show (s.settle op.precedence).map (wait (.operator op)) >>= (fun s => pushAll s ts) = _
  cases s.settle op.precedence <;> rfl

/-- An operator of a rule joins the phrase on its left with its operand. -/
theorem settle_operand {rule : Rule} {s : Stacks} {op : Operator} {left right : Expr}
    {c : Except EvalFault Stacks} {ts : List Token} (joins : op ∈ rule.operators)
    (hs : s.Settled rule.level) (hleft : c >>= settle rule.level = left.eval.map fun v => s.hold v)
    (hright : ∀ s' : Stacks, s'.Settled rule.operand.level →
      pushAll s' ts >>= settle rule.operand.level = right.eval.map fun v => s'.hold v) :
    (c >>= fun s' => pushAll s' (.operator op :: ts)) >>= settle rule.level =
      (Expr.binary op left right).eval.map fun v => s.hold v := by
  obtain ⟨hprecedence, hlevel⟩ := level_of_mem joins
  have hread : (c >>= fun s' => pushAll s' (.operator op :: ts)) =
      (left.eval.map fun v => s.hold v) >>= fun s' => pushAll (s'.wait (.operator op)) ts := by
    rw [← hleft, bind_assoc]
    exact congrArg _ (funext fun s' => hprecedence ▸ pushAll_operator s' op ts)
  rw [hread, Expr.eval_binary]
  cases left.eval with
  | error fault => rfl
  | ok a =>
    show pushAll ((s.hold a).wait (.operator op)) ts >>= _ = _
    have hsettled : ((s.hold a).wait (.operator op)).Settled rule.operand.level :=
      settled_operator (hprecedence ▸ hlevel)
    rw [settle_looser (Nat.le_of_lt hlevel) (hright _ hsettled)]
    cases right.eval with
    | error fault => rfl
    | ok b =>
      show settle rule.level (wait (.operator op) ⟨s.waiting, b :: a :: s.values⟩) = _
      rw [settle_operator (Nat.le_of_eq hprecedence.symm)]
      show (Draft.applyText op.text a b).map (· :: s.values) >>= _ =
        (Draft.applyText op.text a b).map _
      cases Draft.applyText op.text a b with
      | error fault => rfl
      | ok v => exact settle_of_settled (s := s.hold v) hs

end TwoStacksLemmas

mutual

/-- Once it is settled at the level of its rule, a phrase has left its value on the
stacks, or stopped with its fault. -/
theorem settle_pushAll_derivation {rule : Rule} {s : Stacks} :
    (d : Derivation rule) → s.Settled rule.level →
      pushAll s d.tokens >>= settle rule.level = d.tree.eval.map fun v => s.hold v
  | .number value, hs => by
    rw [Derivation.tree, Expr.eval_literal]
    exact settle_of_settled (s := s.hold value.toNat) hs
  | .group inner, hs => by
    have hinner := settle_pushAll_derivation inner (s := s.wait .opening) settled_opening
    have hread : pushAll s (Derivation.group inner).tokens =
        (inner.tree.eval.map fun v => (s.wait .opening).hold v) >>= unwrap := by
      rw [← hinner, bind_assoc]
      show pushAll (s.wait .opening) (inner.tokens ++ [.closing]) = _
      rw [pushAll_append]
      exact congrArg _ (funext pushAll_closing)
    rw [hread, Derivation.tree]
    cases inner.tree.eval with
    | error fault => rfl
    | ok v => exact settle_of_settled (s := s.hold v) hs
  | .chain _ first more, hs => by
    have hle := level_le_operand rule
    have hfirst := settle_pushAll_derivation first (settled_mono hle hs)
    have hlevel := (settle_looser hle hfirst).trans (settle_map_hold hs _)
    rw [Derivation.tokens, pushAll_append, Derivation.tree]
    exact settle_pushAll_repetition more hs hlevel

/-- A repetition goes on with whatever leaves the value of the phrase on its left. -/
theorem settle_pushAll_repetition {rule : Rule} {s : Stacks} {left : Expr}
    {c : Except EvalFault Stacks} :
    (more : Repetition rule) → s.Settled rule.level →
      (c >>= settle rule.level = left.eval.map fun v => s.hold v) →
      (c >>= fun s' => pushAll s' more.tokens) >>= settle rule.level =
        (more.fold left).eval.map fun v => s.hold v
  | .nil, _, hleft => by
    rw [Repetition.fold, ← hleft, bind_assoc]
    rfl
  | .cons op joins operand more, hs, hleft => by
    have hjoin := settle_operand joins hs hleft fun _ => settle_pushAll_derivation operand
    have hmore := settle_pushAll_repetition more hs hjoin
    have hread : (c >>= fun s' => pushAll s' (Repetition.cons op joins operand more).tokens) =
        (c >>= fun s' => pushAll s' (.operator op :: operand.tokens)) >>=
          fun s' => pushAll s' more.tokens := by
      rw [bind_assoc, Repetition.tokens]
      exact congrArg _ (funext fun s' => pushAll_append s' (.operator op :: operand.tokens) _)
    rw [hread, Repetition.fold]
    exact hmore

end

/-! ## 4. All of the tokens -/

/-- Reading tokens as an expression and evaluating it has the outcome of the one pass on
two stacks: the same value, or the same fault with its kind and message. -/
theorem eval_eq_evaluateTokens {limit : Int} {ts : List Token} {tree : Expr}
    (h : Expr.ofTokens limit ts = .ok tree) : tree.eval = evaluateTokens ts := by
  obtain ⟨d, rfl, rfl, -⟩ := ofTokens_eq_ok.mp h
  have hsettled : Settled Rule.expression.level ⟨[], []⟩ := nofun
  have hpass := settle_pushAll_derivation d hsettled
  show _ = pushAll ⟨[], []⟩ d.tokens >>= settle Rule.expression.level >>= result
  rw [hpass]
  cases d.tree.eval <;> rfl

/-- In `(2 - 3) * (7 / 0)` two operators fail, and the pass stops at the first. -/
theorem eval_eq_evaluateTokens_two_faults :
    Expr.ofTokens 1 [.opening, .number 2, .operator .sub, .number 3, .closing, .operator .mul,
        .opening, .number 7, .operator .div, .number 0, .closing] =
      .ok (.binary .mul (.binary .sub (.literal 2) (.literal 3))
        (.binary .div (.literal 7) (.literal 0))) ∧
    evaluateTokens [.opening, .number 2, .operator .sub, .number 3, .closing, .operator .mul,
        .opening, .number 7, .operator .div, .number 0, .closing] =
      .error (.arithmetic (.underflow 2 3)) := by
  have hread : Expr.ofTokens 1 [.opening, .number 2, .operator .sub, .number 3, .closing,
        .operator .mul, .opening, .number 7, .operator .div, .number 0, .closing] =
      .ok (.binary .mul (.binary .sub (.literal 2) (.literal 3))
        (.binary .div (.literal 7) (.literal 0))) :=
    ofTokens_eq_ok.mpr ⟨.chain nofun (.chain nofun
        (.group (.chain nofun (.chain nofun (.number 2) .nil)
          (.cons .sub (by decide) (.chain nofun (.number 3) .nil) .nil)))
        (.cons .mul (by decide)
          (.group (.chain nofun (.chain nofun (.number 7) (.cons .div (by decide) (.number 0) .nil))
            .nil)) .nil)) .nil, rfl, rfl, by decide⟩
  have hleft : (Expr.binary .sub (.literal 2) (.literal 3)).eval =
      .error (.arithmetic (.underflow 2 3)) :=
    Expr.eval_apply (Expr.eval_literal 2) (Expr.eval_literal 3) (by decide) (by decide)
  refine ⟨hread, ?_⟩
  rw [← eval_eq_evaluateTokens hread, Expr.eval_binary, hleft]

end Abacus
