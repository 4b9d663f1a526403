import Abacus.Proofs.Evaluation

/-!
# Where reduction stops

A draft may be at fault in many nodes at once. Reduction ends with one of their faults, and
which one can be told from the tree: that of the node at fault to the left of which, and in
whose operands, all has a value.

Results:
1. `value_eq_error_iff`: recursion over a draft ends with the fault of a node exactly when
   everything to the left of the node has a value and the node itself is at fault.
2. `reduce_first_fault`: so does reduction. Its stack of values holds what every task needs,
   and one value at the end.
-/

namespace Abacus

theorem Operator.ofText?_eq_some {s : String} {op : Operator} :
    Operator.ofText? s = some op ↔ s = op.text := by
  constructor
  · intro h
    unfold ofText? at h
    split at h
    · next c hc =>
      obtain rfl := ofSymbol?_eq_some.mp h
      rw [text, ← String.toList_inj, hc, String.toList_singleton]
    · cases h
  · rintro rfl
    exact ofText?_text op

namespace Draft

/-! ## 1. Nodes at fault -/

/-- A place in a draft: all of it but one part. -/
inductive Spot where
  | whole
  | inLeft (op : String) (inner : Spot) (right : Draft)
  | inRight (op : String) (left : Draft) (inner : Spot)

namespace Spot

/-- The draft with this part at the place. -/
def fill : Spot → Draft → Draft
  | .whole, d => d
  | .inLeft op inner right, d => .binary op (inner.fill d) right
  | .inRight op left inner, d => .binary op left (inner.fill d)

/-- The operands to the left of the place, from the outermost one on. -/
def before : Spot → List Draft
  | .whole => []
  | .inLeft _ inner _ => inner.before
  | .inRight _ left inner => left :: inner.before

end Spot

/-- A node is at fault by itself. One that is no expression, or lacks an operand, always is.
An operator is when both of its operands have values: because it is none of the four, because
it would put a value into words that is too long for that, or because it has no result. -/
inductive FailsHere : Draft → EvalFault → Prop
  | foreign (typeName : String) : FailsHere (.foreign typeName) (.foreign typeName)
  | incomplete (side : Expr.Side) : FailsHere (.incomplete side) (.incomplete side)
  | unknownOperator {op : String} {left right : Draft} {a b : Int} :
      left.value = .ok a → right.value = .ok b → (∀ o : Operator, op ≠ o.text) →
        FailsHere (.binary op left right) (.unknownOperator op)
  | tooLong {op : Operator} {left right : Draft} {a b : Int} :
      left.value = .ok a → right.value = .ok b → op.describes a b = true →
        (Numeral.isTooLong a || Numeral.isTooLong b) = true →
          FailsHere (.binary op.text left right) .tooLong
  | arithmetic {op : Operator} {left right : Draft} {a b : Int} {fault : ArithmeticFault} :
      left.value = .ok a → right.value = .ok b →
        (op.describes a b && (Numeral.isTooLong a || Numeral.isTooLong b)) = false →
          op.apply a b = .error fault → FailsHere (.binary op.text left right) (.arithmetic fault)

namespace DraftsLemmas

variable {op : String} {left right node : Draft} {a b : Int} {fault : EvalFault}

theorem applyText_operator (o : Operator) :
    applyText o.text a b =
      if (o.describes a b && (Numeral.isTooLong a || Numeral.isTooLong b)) = true then
        .error .tooLong
      else (o.apply a b).mapError .arithmetic := by
  rw [applyText, Operator.ofText?_text]

theorem applyText_other (h : ∀ o : Operator, op ≠ o.text) :
    applyText op a b = .error (.unknownOperator op) := by
  have hnone : Operator.ofText? op = none :=
    Option.eq_none_iff_forall_ne_some.mpr fun o ho => h o (Operator.ofText?_eq_some.mp ho)
  rw [applyText, hnone]

theorem value_binary (ha : left.value = .ok a) (hb : right.value = .ok b) :
    (binary op left right).value = applyText op a b := by
  rw [value, ha, hb]

theorem value_of_failsHere (h : node.FailsHere fault) : node.value = .error fault := by
  cases h with
  | foreign typeName => rw [value]
  | incomplete side => rw [value]
  | unknownOperator ha hb hop => rw [value_binary ha hb, applyText_other hop]
  | tooLong ha hb hdescribes hlong =>
    rw [value_binary ha hb, applyText_operator, if_pos]
    rw [hdescribes, hlong]
    rfl
  | arithmetic ha hb hshort happly =>
    rw [value_binary ha hb, applyText_operator, hshort, happly]
    rfl

/-- An operator that fails on the values of its operands is at fault by itself. -/
theorem failsHere_of_applyText (ha : left.value = .ok a) (hb : right.value = .ok b)
    (h : applyText op a b = .error fault) : (binary op left right).FailsHere fault := by
  by_cases hop : ∃ o : Operator, op = o.text
  · obtain ⟨o, rfl⟩ := hop
    rw [applyText_operator] at h
    split at h
    · next hlong =>
      cases h
      obtain ⟨hdescribes, hlong⟩ := (Bool.and_eq_true _ _).mp hlong
      exact .tooLong ha hb hdescribes hlong
    · next hshort =>
      cases happly : o.apply a b with
      | ok v =>
        rw [happly] at h
        cases h
      | error stop =>
        rw [happly] at h
        cases h
        exact .arithmetic ha hb (Bool.eq_false_iff.mpr hshort) happly
  · have hother : ∀ o : Operator, op ≠ o.text := fun o ho => hop ⟨o, ho⟩
    rw [applyText_other hother] at h
    cases h
    exact .unknownOperator ha hb hother

end DraftsLemmas

open DraftsLemmas

/-! ## 2. The first fault -/

/-- A fault is the first one of a draft: it is that of a node with nothing but values to its
left. -/
def FirstFault (d : Draft) (fault : EvalFault) : Prop :=
  ∃ (spot : Spot) (node : Draft), d = spot.fill node ∧
    (∀ e ∈ spot.before, ∃ v, e.value = .ok v) ∧ node.FailsHere fault

namespace DraftsLemmas

theorem firstFault_of_value {d : Draft} {fault : EvalFault} (h : d.value = .error fault) :
    d.FirstFault fault := by
  induction d with
  | literal v => cases h
  | incomplete side =>
    cases h
    exact ⟨.whole, _, rfl, nofun, .incomplete side⟩
  | foreign typeName =>
    cases h
    exact ⟨.whole, _, rfl, nofun, .foreign typeName⟩
  | binary op left right ihl ihr =>
    cases ha : left.value with
    | error stop =>
      rw [value, ha] at h
      cases h
      obtain ⟨spot, node, rfl, hbefore, hnode⟩ := ihl ha
      exact ⟨.inLeft op spot right, node, rfl, hbefore, hnode⟩
    | ok a =>
      cases hb : right.value with
      | error stop =>
        rw [value, ha, hb] at h
        cases h
        obtain ⟨spot, node, rfl, hbefore, hnode⟩ := ihr hb
        have hleft : ∀ e ∈ left :: spot.before, ∃ v, e.value = .ok v :=
          List.forall_mem_cons.mpr ⟨⟨a, ha⟩, hbefore⟩
        exact ⟨.inRight op left spot, node, rfl, hleft, hnode⟩
      | ok b =>
        rw [value_binary ha hb] at h
        exact ⟨.whole, _, rfl, nofun, failsHere_of_applyText ha hb h⟩

theorem value_fill {spot : Spot} {node : Draft} {fault : EvalFault}
    (hbefore : ∀ e ∈ spot.before, ∃ v, e.value = .ok v) (h : node.value = .error fault) :
    (spot.fill node).value = .error fault := by
  induction spot with
  | whole => exact h
  | inLeft op inner right ih => rw [Spot.fill, value, ih hbefore]
  | inRight op left inner ih =>
    obtain ⟨⟨a, ha⟩, hinner⟩ := List.forall_mem_cons.mp hbefore
    rw [Spot.fill, value, ha, ih hinner]

end DraftsLemmas

/-- Recursion over a draft ends with its first fault. -/
theorem value_eq_error_iff {d : Draft} {fault : EvalFault} :
    d.value = .error fault ↔ d.FirstFault fault := by
  refine ⟨firstFault_of_value, ?_⟩
  rintro ⟨spot, node, rfl, hbefore, hnode⟩
  exact value_fill hbefore (value_of_failsHere hnode)

/-! ## 3. Reduction -/

namespace DraftsLemmas

variable {d : Draft}

/-- The tasks of a draft leave its value on the stack and nothing else. -/
theorem runTasks_draft : runTasks [.visit d] [] = d.value.map fun v => [v] := by
  rw [runTasks_visit]
  cases d.value with
  | error fault => rfl
  | ok v =>
    dsimp only
    rw [runTasks]
    rfl

theorem value_of_runTasks_error {fault : EvalFault} (h : runTasks [.visit d] [] = .error fault) :
    d.value = .error fault := by
  rw [runTasks_draft] at h
  cases hvalue : d.value with
  | ok v =>
    rw [hvalue] at h
    cases h
  | error stop =>
    rw [hvalue] at h
    cases h
    rfl

theorem eq_singleton_of_runTasks_ok {values : List Int}
    (h : runTasks [.visit d] [] = .ok values) : ∃ v, values = [v] := by
  rw [runTasks_draft] at h
  cases hvalue : d.value with
  | ok v =>
    rw [hvalue] at h
    cases h
    exact ⟨v, rfl⟩
  | error fault =>
    rw [hvalue] at h
    cases h

theorem not_firstFault_unbalanced : ¬ d.FirstFault .unbalanced := by
  rintro ⟨spot, node, -, -, hnode⟩
  cases hnode

end DraftsLemmas

/-- How the reduction of any draft ends, well-formed or not. It is what recursion over the
draft comes to, and if that is a fault it is the first one of the draft. No task ever finds
too few values on the stack, and when all tasks are done exactly one value is left. -/
theorem reduce_first_fault (d : Draft) :
    d.reduce = d.value ∧
    (∀ fault, d.reduce = .error fault ↔ d.FirstFault fault) ∧
    runTasks [.visit d] [] ≠ .error .unbalanced ∧
    ∀ values, runTasks [.visit d] [] = .ok values → ∃ v, values = [v] := by
  refine ⟨reduce_eq_value d, fun fault => ?_, fun h => ?_, fun _ => eq_singleton_of_runTasks_ok⟩
  · rw [reduce_eq_value]
    exact value_eq_error_iff
  · exact not_firstFault_unbalanced (value_eq_error_iff.mp (value_of_runTasks_error h))

end Draft

end Abacus
