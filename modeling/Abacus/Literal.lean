/-!
# Literals

The numbers an expression may hold: the unsigned integers of 64 bits. A number
outside that range is refused with the side on which it lies.
-/

namespace Abacus

/-- The largest number that 64 bits hold. -/
def maxValue : Nat := 18446744073709551615

/-- True of the numbers that 64 bits hold. -/
def InRange (v : Int) : Prop := 0 ≤ v ∧ v ≤ maxValue

instance (v : Int) : Decidable (InRange v) :=
  inferInstanceAs (Decidable (0 ≤ v ∧ v ≤ maxValue))

/-- Why a number is no literal. -/
inductive RangeFault where
  | negative
  | tooLarge
  deriving DecidableEq, Repr

/-- The literal of a number, if the number is in range. -/
def literal? (v : Int) : Except RangeFault UInt64 :=
  if v < 0 then .error .negative
  else if maxValue < v.toNat then .error .tooLarge
  else .ok (UInt64.ofNat v.toNat)

/-- A literal stands for a number in range. -/
theorem toNat_le_maxValue (v : UInt64) : v.toNat ≤ maxValue :=
  Nat.le_of_lt_succ v.toNat_lt

/-- A literal is made of exactly the number it stands for. -/
theorem literal?_eq_ok {v : Int} {w : UInt64} : literal? v = .ok w ↔ v = w.toNat := by
  have hw := w.toNat_lt
  constructor
  · intro h
    unfold literal? at h
    split at h
    · cases h
    · split at h
      · cases h
      · next hneg hbig =>
        cases h
        simp only [maxValue, Nat.not_lt] at hbig
        rw [UInt64.toNat_ofNat']
        omega
  · rintro rfl
    have hbig : ¬ maxValue < w.toNat := Nat.not_lt.mpr (toNat_le_maxValue w)
    simp only [literal?, Int.toNat_natCast, hbig, if_false, UInt64.ofNat_toNat,
      show ¬ ((w.toNat : Int) < 0) by omega]

/-- A number in range is a literal. -/
theorem literal?_natCast {n : Nat} (h : n ≤ maxValue) : literal? n = .ok (UInt64.ofNat n) := by
  simp only [maxValue] at h
  rw [literal?_eq_ok, UInt64.toNat_ofNat']
  omega

/-- Exactly the numbers in range are literals. -/
theorem exists_literal?_eq_ok {v : Int} : (∃ w, literal? v = .ok w) ↔ InRange v := by
  constructor
  · rintro ⟨w, h⟩
    obtain rfl := literal?_eq_ok.mp h
    exact ⟨Int.natCast_nonneg _, Int.ofNat_le.mpr (toNat_le_maxValue w)⟩
  · rintro ⟨hv, hmax⟩
    obtain ⟨n, rfl⟩ := Int.eq_ofNat_of_zero_le hv
    exact ⟨_, literal?_natCast (Int.ofNat_le.mp hmax)⟩

end Abacus
