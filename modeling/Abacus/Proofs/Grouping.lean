import Abacus.Proofs.Evaluation
import Mathlib.Algebra.BigOperators.Group.List.Basic
import Mathlib.Algebra.GroupWithZero.Nat

/-!
# Sums and products in any grouping

Every result on the way is checked against the range, so in general the grouping decides
whether an expression has a value. It does not in a sum, and not in a product without a zero,
because there no result on the way exceeds the last one.

Results:
1. `totals_binary`: an operator whose result is at least as great as its operands passes on
   the overflow of an operand, and overflows itself only if its exact result does.
2. `eval_any_grouping`: a sum or a product without a zero has its exact total as its value if
   the total is in range, and overflows otherwise, whatever the grouping and the order.
3. `product_with_zero_depends_on_order`: with a zero among the factors the order matters.
-/

namespace Abacus.Expr

/-! ## 1. Trees of one operator -/

/-- The literals of a tree from left to right. -/
def leaves : Expr → List UInt64
  | .literal value => [value]
  | .binary _ left right => left.leaves ++ right.leaves

/-- All operators of a tree are the same one. -/
def Uniform (op : Operator) : Expr → Prop
  | .literal _ => True
  | .binary op' left right => op' = op ∧ left.Uniform op ∧ right.Uniform op

/-- The exact sum of the literals of a tree. -/
def leafSum (e : Expr) : Nat := (e.leaves.map UInt64.toNat).sum

/-- The exact product of the literals of a tree. -/
def leafProduct (e : Expr) : Nat := (e.leaves.map UInt64.toNat).prod

/-- Evaluation ends with an overflow. -/
def Overflows (e : Expr) : Prop :=
  ∃ fault, e.eval = .error (.arithmetic fault) ∧ fault.kind = .overflow

/-- Evaluation ends with a total if that is in range, and with an overflow otherwise. -/
def Totals (e : Expr) (total : Nat) : Prop :=
  if total ≤ maxValue then e.eval = .ok total else e.Overflows

namespace GroupingLemmas

variable {op : Operator} {e left right : Expr} {a b total : Nat}

theorem overflows_of_lt (h : e.Totals total) (hlt : maxValue < total) : e.Overflows := by
  rwa [Totals, if_neg (Nat.not_le.mpr hlt)] at h

theorem eval_of_le (h : e.Totals total) (hle : total ≤ maxValue) : e.eval = .ok total := by
  rwa [Totals, if_pos hle] at h

theorem overflows_of_left (h : left.Overflows) : (binary op left right).Overflows := by
  obtain ⟨fault, heval, hkind⟩ := h
  refine ⟨fault, ?_, hkind⟩
  rw [eval_binary, heval]

theorem overflows_of_right {v : Int} (hleft : left.eval = .ok v) (h : right.Overflows) :
    (binary op left right).Overflows := by
  obtain ⟨fault, heval, hkind⟩ := h
  refine ⟨fault, ?_, hkind⟩
  rw [eval_binary, hleft, heval]

theorem inRange_natCast (h : a ≤ maxValue) : InRange a :=
  ⟨Int.natCast_nonneg a, Int.ofNat_le.mpr h⟩

end GroupingLemmas

open GroupingLemmas

/-- An operator that fails by overflow only, with a result no smaller than its operands, has
that result as its total if its operands have theirs. -/
theorem totals_binary {op : Operator} {left right : Expr} {a b total : Nat}
    (happly : op.apply a b = checkOverflow op a b total) (ha : a ≤ total) (hb : b ≤ total)
    (hleft : left.Totals a) (hright : right.Totals b) :
    (binary op left right).Totals total := by
  unfold Totals
  split
  · next hle =>
    have hla := Nat.le_trans ha hle
    have hlb := Nat.le_trans hb hle
    rw [eval_apply (eval_of_le hleft hla) (eval_of_le hright hlb) (inRange_natCast hla)
      (inRange_natCast hlb), happly, checkOverflow, if_neg (by omega)]
    rfl
  · next hgt =>
    -- The first of the three totals that exceeds the range is where evaluation stops.
    rcases Nat.lt_or_ge maxValue a with hla | hla
    · exact overflows_of_left (overflows_of_lt hleft hla)
    rcases Nat.lt_or_ge maxValue b with hlb | hlb
    · exact overflows_of_right (eval_of_le hleft hla) (overflows_of_lt hright hlb)
    refine ⟨.overflow op a b, ?_, rfl⟩
    rw [eval_apply (eval_of_le hleft hla) (eval_of_le hright hlb) (inRange_natCast hla)
      (inRange_natCast hlb), happly, checkOverflow, if_pos (by omega)]
    rfl

/-! ## 2. Sums -/

namespace GroupingLemmas

theorem totals_literal (value : UInt64) : (literal value).Totals value.toNat := by
  rw [Totals, if_pos (toNat_le_maxValue value), eval_literal]

theorem leafSum_literal (value : UInt64) : (literal value).leafSum = value.toNat := by
  simp [leafSum, leaves]

theorem leafSum_binary (op : Operator) (left right : Expr) :
    (binary op left right).leafSum = left.leafSum + right.leafSum := by
  simp [leafSum, leaves]

theorem apply_add (a b : Nat) :
    Operator.add.apply a b = checkOverflow .add a b ((a + b : Nat) : Int) := by
  rw [Operator.apply, Int.natCast_add]

end GroupingLemmas

/-- A sum has its exact total. -/
theorem totals_leafSum {e : Expr} (h : e.Uniform .add) : e.Totals e.leafSum := by
  induction e with
  | literal value =>
    rw [leafSum_literal]
    exact totals_literal value
  | binary op left right ihl ihr =>
    obtain ⟨rfl, hleft, hright⟩ := h
    rw [leafSum_binary]
    exact totals_binary (apply_add _ _) (Nat.le_add_right _ _) (Nat.le_add_left _ _)
      (ihl hleft) (ihr hright)

/-! ## 3. Products -/

namespace GroupingLemmas

theorem leafProduct_literal (value : UInt64) : (literal value).leafProduct = value.toNat := by
  simp [leafProduct, leaves]

theorem leafProduct_binary (op : Operator) (left right : Expr) :
    (binary op left right).leafProduct = left.leafProduct * right.leafProduct := by
  simp [leafProduct, leaves]

theorem apply_mul (a b : Nat) :
    Operator.mul.apply a b = checkOverflow .mul a b ((a * b : Nat) : Int) := by
  rw [Operator.apply, Int.natCast_mul]

theorem leafProduct_pos {e : Expr} (h : ∀ v ∈ e.leaves, v ≠ 0) : 0 < e.leafProduct := by
  induction e with
  | literal value =>
    rw [leafProduct_literal]
    exact Nat.pos_of_ne_zero fun hzero => h value List.mem_cons_self (UInt64.toNat.inj hzero)
  | binary op left right ihl ihr =>
    rw [leafProduct_binary]
    exact Nat.mul_pos (ihl fun v hv => h v (List.mem_append_left _ hv))
      (ihr fun v hv => h v (List.mem_append_right _ hv))

end GroupingLemmas

/-- A product without a zero has its exact total. -/
theorem totals_leafProduct {e : Expr} (h : e.Uniform .mul) (hleaves : ∀ v ∈ e.leaves, v ≠ 0) :
    e.Totals e.leafProduct := by
  induction e with
  | literal value =>
    rw [leafProduct_literal]
    exact totals_literal value
  | binary op left right ihl ihr =>
    obtain ⟨rfl, hleft, hright⟩ := h
    have hl : ∀ v ∈ left.leaves, v ≠ 0 := fun v hv => hleaves v (List.mem_append_left _ hv)
    have hr : ∀ v ∈ right.leaves, v ≠ 0 := fun v hv => hleaves v (List.mem_append_right _ hv)
    rw [leafProduct_binary]
    exact totals_binary (apply_mul _ _) (Nat.le_mul_of_pos_right _ (leafProduct_pos hr))
      (Nat.le_mul_of_pos_left _ (leafProduct_pos hl)) (ihl hleft hl) (ihr hright hr)

/-! ## 4. Grouping and order -/

namespace GroupingLemmas

/-- Trees with one total end alike. -/
theorem alike_of_totals {e e' : Expr} {total : Nat} (h : e.Totals total) (h' : e'.Totals total) :
    (∃ v, e.eval = .ok v ∧ e'.eval = .ok v) ∨ e.Overflows ∧ e'.Overflows := by
  rcases Nat.lt_or_ge maxValue total with hlt | hle
  · exact .inr ⟨overflows_of_lt h hlt, overflows_of_lt h' hlt⟩
  · exact .inl ⟨total, eval_of_le h hle, eval_of_le h' hle⟩

end GroupingLemmas

/-- A tree of additions evaluates to the exact sum of its literals if that is in range, and
overflows otherwise. A tree of multiplications without a zero among its literals evaluates to
their exact product if that is in range, and overflows otherwise. So two such trees of one
operator over the same literals, in whatever grouping and order, evaluate to the same number
or both overflow. -/
theorem eval_any_grouping :
    (∀ e : Expr, e.Uniform .add →
      if e.leafSum ≤ maxValue then e.eval = .ok e.leafSum else e.Overflows) ∧
    (∀ e : Expr, e.Uniform .mul → (∀ v ∈ e.leaves, v ≠ 0) →
      if e.leafProduct ≤ maxValue then e.eval = .ok e.leafProduct else e.Overflows) ∧
    ∀ (op : Operator) (e e' : Expr), e.Uniform op → e'.Uniform op →
      op = .add ∨ (op = .mul ∧ (∀ v ∈ e.leaves, v ≠ 0) ∧ ∀ v ∈ e'.leaves, v ≠ 0) →
      e.leaves.Perm e'.leaves →
      (∃ v, e.eval = .ok v ∧ e'.eval = .ok v) ∨ (e.Overflows ∧ e'.Overflows) := by
  refine ⟨fun e => totals_leafSum, fun e => totals_leafProduct, ?_⟩
  rintro op e e' h h' (rfl | ⟨rfl, hleaves, hleaves'⟩) hperm
  · have hsum : e.leafSum = e'.leafSum := (hperm.map UInt64.toNat).sum_eq
    exact alike_of_totals (totals_leafSum h) (hsum ▸ totals_leafSum h')
  · have hproduct : e.leafProduct = e'.leafProduct := (hperm.map UInt64.toNat).prod_eq
    exact alike_of_totals (totals_leafProduct h hleaves)
      (hproduct ▸ totals_leafProduct h' hleaves')

/-- The numbers 18446744073709551614, 1 and 0 add up to the greatest number in range in two
groupings, and the factors 4294967296, 2147483648 and 2 overflow in two. -/
theorem eval_any_grouping_at_bound :
    let sum := binary .add (binary .add (literal 18446744073709551614) (literal 1)) (literal 0)
    let sum' := binary .add (literal 0) (binary .add (literal 1) (literal 18446744073709551614))
    let product := binary .mul (literal 4294967296) (binary .mul (literal 2147483648) (literal 2))
    let product' := binary .mul (binary .mul (literal 2) (literal 4294967296)) (literal 2147483648)
    (sum.Uniform .add ∧ sum'.Uniform .add ∧ sum.leaves.Perm sum'.leaves ∧
      sum.eval = .ok maxValue ∧ sum'.eval = .ok maxValue) ∧
    (product.Uniform .mul ∧ product'.Uniform .mul ∧ product.leaves.Perm product'.leaves ∧
      (∀ v ∈ product.leaves, v ≠ 0) ∧ (∀ v ∈ product'.leaves, v ≠ 0) ∧
      product.Overflows ∧ product'.Overflows) := by
  intro sum sum' product product'
  have hsum : sum.Uniform .add := ⟨rfl, ⟨rfl, trivial, trivial⟩, trivial⟩
  have hsum' : sum'.Uniform .add := ⟨rfl, trivial, rfl, trivial, trivial⟩
  have hproduct : product.Uniform .mul := ⟨rfl, trivial, rfl, trivial, trivial⟩
  have hproduct' : product'.Uniform .mul := ⟨rfl, ⟨rfl, trivial, trivial⟩, trivial⟩
  have hfactors : ∀ v ∈ product.leaves, v ≠ 0 := by simp [product, leaves]
  have hfactors' : ∀ v ∈ product'.leaves, v ≠ 0 := by simp [product', leaves]
  have hterms : sum.leaves.Perm sum'.leaves := by decide
  have hperm : product.leaves.Perm product'.leaves := by decide
  obtain ⟨hadd, hmul, hgroup⟩ := eval_any_grouping
  have heval : sum.eval = .ok maxValue := hadd sum hsum
  have hover : product.Overflows := hmul product hproduct hfactors
  refine ⟨⟨hsum, hsum', hterms, heval, ?_⟩,
    hproduct, hproduct', hperm, hfactors, hfactors', hover, ?_⟩
  · rcases hgroup .add sum sum' hsum hsum' (.inl rfl) hterms with ⟨v, hv, hv'⟩ | ⟨hstop, -⟩
    · rw [hv', ← hv, heval]
    · obtain ⟨fault, hfault, -⟩ := hstop
      rw [heval] at hfault
      cases hfault
  · rcases hgroup .mul product product' hproduct hproduct' (.inr ⟨rfl, hfactors, hfactors'⟩) hperm
      with ⟨v, hv, -⟩ | ⟨-, hstop⟩
    · obtain ⟨fault, hfault, -⟩ := hover
      rw [hv] at hfault
      cases hfault
    · exact hstop

/-- With a zero among the factors the order matters: 0 times two great numbers is 0, and the
great numbers times each other overflow before they meet the zero. -/
theorem product_with_zero_depends_on_order :
    ∃ e e' : Expr, e.Uniform .mul ∧ e'.Uniform .mul ∧ e.leaves.Perm e'.leaves ∧
      e.eval = .ok 0 ∧ e'.Overflows := by
  have hgreat : (binary .mul (literal 18446744073709551615) (literal 2)).Overflows := by
    have h : ∀ v ∈ (binary .mul (literal 18446744073709551615) (literal 2)).leaves, v ≠ 0 := by
      simp [leaves]
    exact overflows_of_lt (totals_leafProduct ⟨rfl, trivial, trivial⟩ h) (by decide)
  have hzero : (binary .mul (literal 0) (literal 18446744073709551615)).eval = .ok 0 :=
    eval_apply (eval_literal 0) (eval_literal 18446744073709551615) (by decide) (by decide)
  refine ⟨binary .mul (binary .mul (literal 0) (literal 18446744073709551615)) (literal 2),
    binary .mul (binary .mul (literal 18446744073709551615) (literal 2)) (literal 0),
    ⟨rfl, ⟨rfl, trivial, trivial⟩, trivial⟩, ⟨rfl, ⟨rfl, trivial, trivial⟩, trivial⟩, by decide,
    ?_, overflows_of_left hgreat⟩
  exact eval_apply hzero (eval_literal 2) (by decide) (by decide)

end Abacus.Expr
