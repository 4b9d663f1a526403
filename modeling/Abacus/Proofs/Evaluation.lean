import Abacus.Expr.Draft

/-!
# What expressions evaluate to

Evaluation runs on a list of tasks and a stack of values. Here it is compared
with plain recursion over the tree, and then with unbounded arithmetic, in which
every subtree has an exact value unless a divisor is zero.

Results:
1. `reduce_eq_value`: running the tasks of a tree is the same as recursion over
   it, for well-formed trees and all others, faults included.
2. `eval_exact`: an expression has a value exactly when every subtree has an
   exact value in range. Otherwise the first node in post-order that has none is
   at fault, with the kind of fault that its operator and operands determine.
3. `divisionByZero_names_no_operand`: the wording of a division by zero tells
   neither operand, unlike that of the other faults.
-/

namespace Abacus

/-! ## 1. Evaluation by recursion -/

/-- The value of a draft by recursion: the left operand, the right operand, then
the operator. -/
def Draft.value : Draft → Except EvalFault Int
  | .literal v => .ok v
  | .incomplete side => .error (.incomplete side)
  | .foreign typeName => .error (.foreign typeName)
  | .binary op left right =>
    match left.value with
    | .error fault => .error fault
    | .ok a =>
      match right.value with
      | .error fault => .error fault
      | .ok b => applyText op a b

namespace Draft

/-- Visiting a tree puts its value on the stack and leaves the tasks behind it
and the values below it alone; a fault of the tree ends the run. -/
theorem runTasks_visit (d : Draft) (tasks : List Task) (values : List Int) :
    runTasks (.visit d :: tasks) values =
      match d.value with
      | .error fault => .error fault
      | .ok v => runTasks tasks (v :: values) := by
  -- By the tree: the operands are visited with the operator still to be done.
  induction d generalizing tasks values with
  | literal v => rw [runTasks, value]
  | incomplete side => rw [runTasks, value]
  | foreign typeName => rw [runTasks, value]
  | binary op left right ihl ihr =>
    rw [runTasks, ihl, value]
    cases left.value with
    | error fault => rfl
    | ok a =>
      dsimp only
      rw [ihr]
      cases right.value with
      | error fault => rfl
      | ok b =>
        dsimp only
        rw [runTasks]
        cases applyText op a b <;> rfl

/-- A draft reduces to its value by recursion. The stack of values never runs
short, and one value is left. -/
theorem reduce_eq_value (d : Draft) : d.reduce = d.value := by
  rw [reduce, runTasks_visit]
  cases d.value with
  | error fault => rfl
  | ok v =>
    dsimp only
    rw [runTasks]

end Draft

/-! ## 2. Values in unbounded arithmetic -/

/-- The result of an operator on integers of any size. Division drops the
fraction and needs a divisor other than zero. -/
def Operator.exactValue? (op : Operator) (left right : Int) : Option Int :=
  match op with
  | .add => some (left + right)
  | .sub => some (left - right)
  | .mul => some (left * right)
  | .div => if right = 0 then none else some (left.tdiv right)

namespace Expr

/-- The value of an expression in unbounded arithmetic. There is none if some
divisor is zero. -/
def exactValue? : Expr → Option Int
  | .literal value => some value.toNat
  | .binary op left right =>
    match left.exactValue?, right.exactValue? with
    | some a, some b => op.exactValue? a b
    | _, _ => none

/-- An expression fits if it has an exact value and the value is in range. -/
def Fits (e : Expr) : Prop := ∃ v, e.exactValue? = some v ∧ InRange v

/-- All subtrees: those of the left operand, those of the right operand, then
the tree itself. -/
def postOrder : Expr → List Expr
  | .literal value => [.literal value]
  | .binary op left right => left.postOrder ++ right.postOrder ++ [.binary op left right]

/-- A subtree is the first in post-order that does not fit. -/
def FirstMisfit (e node : Expr) : Prop :=
  ∃ before after, e.postOrder = before ++ node :: after ∧ (∀ s ∈ before, s.Fits) ∧ ¬ node.Fits

end Expr

/-- A fault belongs to an operator and its operands: its kind is that of the
failure, and its wording tells the operands, except that of a division by zero. -/
structure ArithmeticFault.Describes (fault : ArithmeticFault) (op : Operator) (a b : Int) :
    Prop where
  divisionByZero : fault.kind = .divisionByZero ↔ op = .div ∧ b = 0
  underflow : fault.kind = .underflow ↔ op = .sub ∧ a < b
  overflow : fault.kind = .overflow ↔
    op = .add ∧ maxValue < a + b ∨ op = .mul ∧ maxValue < a * b
  message : fault.message =
    match fault.kind with
    | .divisionByZero => "Division by zero"
    | .underflow =>
      "Underflow: " ++ Numeral.ofInt a ++ " - " ++ Numeral.ofInt b ++ " is negative"
    | .overflow =>
      "Overflow: " ++ Numeral.ofInt a ++ " " ++ op.text ++ " " ++ Numeral.ofInt b ++
        " exceeds " ++ Numeral.ofNat maxValue

/-! ## 3. Operators on numbers in range -/

namespace EvaluationLemmas

variable {op : Operator} {a b v : Int} {fault : ArithmeticFault}

theorem checkOverflow_eq_ok {result : Int} :
    checkOverflow op a b result = .ok v ↔ result = v ∧ result ≤ maxValue := by
  unfold checkOverflow
  split
  · next h => exact ⟨nofun, fun hv => absurd hv.2 (Int.not_le.mpr h)⟩
  · next h => exact ⟨fun hv => ⟨Except.ok.inj hv, Int.not_lt.mp h⟩, fun hv => congrArg _ hv.1⟩

theorem checkOverflow_eq_error {result : Int} :
    checkOverflow op a b result = .error fault ↔
      maxValue < result ∧ fault = .overflow op a b := by
  unfold checkOverflow
  split
  · next h => exact ⟨fun hf => ⟨h, (Except.error.inj hf).symm⟩, fun hf => hf.2 ▸ rfl⟩
  · next h => exact ⟨nofun, fun hf => absurd hf.1 h⟩

/-- On operands in range an operator succeeds exactly when its exact result is
in range. -/
theorem apply_eq_ok (ha : InRange a) (hb : InRange b) :
    op.apply a b = .ok v ↔ op.exactValue? a b = some v ∧ InRange v := by
  obtain ⟨ha0, ha1⟩ := ha
  obtain ⟨hb0, hb1⟩ := hb
  cases op with
  | add =>
    rw [Operator.apply, checkOverflow_eq_ok, Operator.exactValue?, Option.some.injEq]
    unfold InRange
    omega
  | sub =>
    rw [Operator.apply, Operator.exactValue?, Option.some.injEq]
    unfold InRange
    split
    · constructor
      · intro hv
        cases hv
      · intro hv
        omega
    · exact ⟨fun hv => by cases hv; omega, fun hv => congrArg _ hv.1⟩
  | mul =>
    have hab : 0 ≤ a * b := Int.mul_nonneg ha0 hb0
    rw [Operator.apply, checkOverflow_eq_ok, Operator.exactValue?, Option.some.injEq]
    unfold InRange
    omega
  | div =>
    -- Rounding down and dropping the fraction differ only below zero.
    have hdiv : a.fdiv b = a.tdiv b := Int.fdiv_eq_tdiv_of_nonneg ha0 hb0
    have hle : a.tdiv b ≤ a := Int.tdiv_le_self b ha0
    have hnonneg : 0 ≤ a.tdiv b := Int.tdiv_nonneg ha0 hb0
    rw [Operator.apply, Operator.exactValue?, hdiv]
    unfold InRange
    split
    · constructor
      · intro hv
        cases hv
      · rintro ⟨hv, -⟩
        cases hv
    · exact ⟨fun hv => by cases hv; exact ⟨rfl, hnonneg, by omega⟩,
        fun hv => congrArg _ (Option.some.inj hv.1)⟩

/-- On operands in range an operator that fails does so with the fault that
belongs to it. -/
theorem describes_of_apply (h : op.apply a b = .error fault) : fault.Describes op a b := by
  cases op with
  | add =>
    obtain ⟨hmax, rfl⟩ := checkOverflow_eq_error.mp h
    refine ⟨?_, ?_, ?_, rfl⟩ <;> simp [ArithmeticFault.kind, hmax]
  | sub =>
    rw [Operator.apply] at h
    split at h
    · next hlt =>
      cases h
      refine ⟨?_, ?_, ?_, rfl⟩ <;> simp [ArithmeticFault.kind, hlt]
    · cases h
  | mul =>
    obtain ⟨hmax, rfl⟩ := checkOverflow_eq_error.mp h
    refine ⟨?_, ?_, ?_, rfl⟩ <;> simp [ArithmeticFault.kind, hmax]
  | div =>
    rw [Operator.apply] at h
    split at h
    · next hzero =>
      cases h
      refine ⟨?_, ?_, ?_, rfl⟩ <;> simp [ArithmeticFault.kind, hzero]
    · cases h

end EvaluationLemmas

open EvaluationLemmas

/-! ## 4. Expressions -/

namespace Expr

/-- Where evaluation of an expression stops: at a node whose operands have
values, the first in post-order that does not fit, with the fault of the node. -/
structure FailsAt (e : Expr) (op : Operator) (left right : Expr) (a b : Int)
    (fault : ArithmeticFault) : Prop where
  first : e.FirstMisfit (.binary op left right)
  left : left.exactValue? = some a
  right : right.exactValue? = some b
  eval : e.eval = .error (.arithmetic fault)
  describes : fault.Describes op a b

theorem eval_literal (value : UInt64) : (literal value).eval = .ok value.toNat :=
  Draft.reduce_eq_value _

theorem eval_binary (op : Operator) (left right : Expr) :
    (binary op left right).eval =
      match left.eval with
      | .error fault => .error fault
      | .ok a =>
        match right.eval with
        | .error fault => .error fault
        | .ok b => Draft.applyText op.text a b := by
  simp only [eval, Draft.reduce_eq_value, toDraft, Draft.value]

/-- On operands that have values in range, evaluation applies the operator. -/
theorem eval_apply {op : Operator} {left right : Expr} {a b : Int} (ha : left.eval = .ok a)
    (hb : right.eval = .ok b) (hra : InRange a) (hrb : InRange b) :
    (binary op left right).eval = (op.apply a b).mapError .arithmetic := by
  rw [eval_binary, ha, hb]
  obtain ⟨ha0, ha1⟩ := hra
  obtain ⟨hb0, hb1⟩ := hrb
  exact Draft.applyText_text op (by omega) (by omega)

/-- A failure inside the left operand is one of the whole expression. -/
theorem FailsAt.of_left {e right l r : Expr} {op op' : Operator} {a b : Int}
    {fault : ArithmeticFault} (h : e.FailsAt op' l r a b fault) :
    (binary op e right).FailsAt op' l r a b fault := by
  obtain ⟨before, after, horder, hbefore, hnode⟩ := h.first
  have hfirst : (binary op e right).FirstMisfit (.binary op' l r) := by
    refine ⟨before, after ++ right.postOrder ++ [.binary op e right], ?_, hbefore, hnode⟩
    rw [postOrder, horder]
    simp
  refine { h with
    first := hfirst
    eval := ?_ }
  rw [eval_binary, h.eval]

/-- A failure inside the right operand is one of the whole expression if all of
the left operand fits. -/
theorem FailsAt.of_right {left e l r : Expr} {op op' : Operator} {v a b : Int}
    {fault : ArithmeticFault} (hleft : ∀ s ∈ left.postOrder, s.Fits) (hv : left.eval = .ok v)
    (h : e.FailsAt op' l r a b fault) : (binary op left e).FailsAt op' l r a b fault := by
  obtain ⟨before, after, horder, hbefore, hnode⟩ := h.first
  have hfirst : (binary op left e).FirstMisfit (.binary op' l r) := by
    refine ⟨left.postOrder ++ before, after ++ [.binary op left e], ?_, fun s hs => ?_, hnode⟩
    · rw [postOrder, horder]
      simp
    · exact (List.mem_append.mp hs).elim (hleft s) (hbefore s)
  refine { h with
    first := hfirst
    eval := ?_ }
  rw [eval_binary, hv, h.eval]

/-- Either every subtree fits, and evaluation yields the exact value, or
evaluation stops at the first node that does not. -/
theorem eval_cases (e : Expr) :
    ((∀ s ∈ e.postOrder, s.Fits) ∧ ∃ v, e.exactValue? = some v ∧ InRange v ∧ e.eval = .ok v) ∨
      ∃ op left right a b fault, e.FailsAt op left right a b fault := by
  induction e with
  | literal value =>
    have hrange : InRange value.toNat := exists_literal?_eq_ok.mp ⟨value, literal?_eq_ok.mpr rfl⟩
    refine .inl ⟨fun s hs => ?_, value.toNat, rfl, hrange, eval_literal value⟩
    obtain rfl := List.mem_singleton.mp hs
    exact ⟨value.toNat, rfl, hrange⟩
  | binary op left right ihl ihr =>
    rcases ihl with ⟨hleft, a, ha, hra, hevala⟩ | ⟨op', l, r, a, b, fault, hfail⟩
    · rcases ihr with ⟨hright, b, hb, hrb, hevalb⟩ | ⟨op', l, r, a', b, fault, hfail⟩
      · have heval : (binary op left right).eval = (op.apply a b).mapError .arithmetic :=
          eval_apply hevala hevalb hra hrb
        have hexact : (binary op left right).exactValue? = op.exactValue? a b := by
          rw [exactValue?, ha, hb]
        have hoperands : ∀ s ∈ left.postOrder ++ right.postOrder, s.Fits :=
          fun s hs => (List.mem_append.mp hs).elim (hleft s) (hright s)
        -- Both operands fit, so the node itself decides.
        cases happly : op.apply a b with
        | ok v =>
          obtain ⟨hv, hrv⟩ := (apply_eq_ok hra hrb).mp happly
          refine .inl ⟨fun s hs => ?_, v, hexact.trans hv, hrv, by rw [heval, happly]; rfl⟩
          rcases List.mem_append.mp hs with hs | hs
          · exact hoperands s hs
          · obtain rfl := List.mem_singleton.mp hs
            exact ⟨v, hexact.trans hv, hrv⟩
        | error fault =>
          have hmisfit : ¬ (binary op left right).Fits := by
            rintro ⟨v, hv, hrv⟩
            have hok := (apply_eq_ok hra hrb).mpr ⟨hexact.symm.trans hv, hrv⟩
            rw [happly] at hok
            cases hok
          exact .inr ⟨op, left, right, a, b, fault,
            { first := ⟨_, [], rfl, hoperands, hmisfit⟩, left := ha, right := hb
              eval := by rw [heval, happly]; rfl
              describes := describes_of_apply happly }⟩
      · exact .inr ⟨op', l, r, a', b, fault, hfail.of_right hleft hevala⟩
    · exact .inr ⟨op', l, r, a, b, fault, hfail.of_left⟩

/-- An expression evaluates to a number exactly when every subtree has an exact
value in range, and then to its own exact value. Otherwise it fails at the first
node in post-order that does not fit. The operands of that node have values, and
the fault is the one that belongs to its operator on them. -/
theorem eval_exact (e : Expr) :
    (∀ v, e.eval = .ok v ↔ (∀ s ∈ e.postOrder, s.Fits) ∧ e.exactValue? = some v) ∧
    ((¬ ∀ s ∈ e.postOrder, s.Fits) →
      ∃ op left right a b fault, e.FailsAt op left right a b fault) := by
  rcases eval_cases e with ⟨hfits, v, hv, -, heval⟩ | ⟨op, left, right, a, b, fault, hfail⟩
  · refine ⟨fun w => ?_, fun h => absurd hfits h⟩
    rw [heval, hv, Except.ok.injEq, Option.some.injEq]
    exact ⟨fun h => ⟨hfits, h⟩, fun h => h.2⟩
  · refine ⟨fun w => ⟨fun h => ?_, fun h => ?_⟩, fun _ => ⟨op, left, right, a, b, fault, hfail⟩⟩
    · rw [hfail.eval] at h
      cases h
    · obtain ⟨before, after, horder, -, hnode⟩ := hfail.first
      exact absurd (h.1 _ (by simp [horder])) hnode

/-- The wording of a division by zero tells no operand: that of `7 / 0` holds
neither the numeral of 7 nor that of 0. -/
theorem divisionByZero_names_no_operand :
    ∃ fault, (binary .div (literal 7) (literal 0)).eval = .error fault ∧
      ¬ (Numeral.ofInt 7).toList <:+: fault.message.toList ∧
      ¬ (Numeral.ofInt 0).toList <:+: fault.message.toList := by
  have heval : (binary .div (literal 7) (literal 0)).eval = .error (.arithmetic .divisionByZero) :=
    eval_apply (eval_literal 7) (eval_literal 0) (by decide) (by decide)
  have hseven : Numeral.ofInt 7 = "7" := by decide +kernel
  have hzero : Numeral.ofInt 0 = "0" := by decide +kernel
  refine ⟨_, heval, fun h => ?_, fun h => ?_⟩
  · rw [hseven] at h
    exact absurd (h.subset (List.mem_singleton.mpr rfl)) (by decide)
  · rw [hzero] at h
    exact absurd (h.subset (List.mem_singleton.mpr rfl)) (by decide)

end Expr

end Abacus
