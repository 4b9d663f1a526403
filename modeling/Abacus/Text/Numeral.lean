/-!
# Decimal numerals

Writing a number in decimal digits and reading digits back. Main statements:
`value_digits` (the written form reads back), `isDigit_of_mem_digits` (a
written form holds digits only), `digits_ne_nil` (it is never empty) and
`ofNat_eq_repr` (it is the one of the core library).
-/

namespace Abacus.Numeral

/-- True of the ten ASCII digits. -/
def isDigit (c : Char) : Bool := '0' ≤ c && c ≤ '9'

/-- The digit character of a number below ten. -/
def digitChar (d : Nat) : Char := Char.ofNat ('0'.toNat + d)

/-- The number that a digit character stands for. -/
def digitValue (c : Char) : Nat := c.toNat - '0'.toNat

/-- The decimal digits of a number, most significant first, with no zero in
front unless the number is zero. -/
def digits (n : Nat) : List Char :=
  if n < 10 then [digitChar n] else digits (n / 10) ++ [digitChar (n % 10)]

/-- The number that a run of digits denotes. Zeros in front do not matter. -/
def value (ds : List Char) : Nat :=
  ds.foldl (fun n d => 10 * n + digitValue d) 0

/-- The digits of a run without the zeros in front. Of a run of zeros one stays. -/
def significant (ds : List Char) : List Char :=
  match ds.dropWhile (· == '0') with
  | [] => ['0']
  | rest => rest

/-- The number that the values of digits denote in a base, most significant first. -/
def ofValues (base : Nat) (values : List Nat) : Nat :=
  values.foldl (fun n d => base * n + d) 0

/-- The most digits of an integer that is read from text, or written where its
length is not known beforehand. -/
def maxLength : Nat := 4300

/-- True of an integer with more digits than can be written. -/
def isTooLong (v : Int) : Bool := Nat.pow 10 maxLength ≤ v.natAbs

/-- The decimal text of a natural number. -/
def ofNat (n : Nat) : String := String.ofList (digits n)

/-- The decimal text of an integer, with a minus sign when it is negative. -/
def ofInt : Int → String
  | .ofNat n => ofNat n
  | .negSucc n => "-" ++ ofNat (n + 1)

/-- The wording of an integer with too many digits. Their number is told where
it is known. -/
def excessMessage (count : Option Nat) : String :=
  "Exceeds the limit (" ++ ofNat maxLength ++ " digits) for integer string conversion" ++
    (count.map fun n => ": value has " ++ ofNat n ++ " digits").getD "" ++
    "; use sys.set_int_max_str_digits() to increase the limit"

/-! ## Reading back what was written -/

theorem isDigit_iff {c : Char} : isDigit c = true ↔ 48 ≤ c.toNat ∧ c.toNat ≤ 57 := by
  rw [isDigit, Bool.and_eq_true, decide_eq_true_eq, decide_eq_true_eq, Char.le_def, Char.le_def,
    UInt32.le_iff_toNat_le, UInt32.le_iff_toNat_le]
  rfl

theorem digitValue_digitChar {d : Nat} (h : d < 10) : digitValue (digitChar d) = d := by
  have : ∀ d : Fin 10, digitValue (digitChar d) = d := by decide
  exact this ⟨d, h⟩

theorem isDigit_digitChar {d : Nat} (h : d < 10) : isDigit (digitChar d) = true := by
  have : ∀ d : Fin 10, isDigit (digitChar d) = true := by decide
  exact this ⟨d, h⟩

theorem value_append_singleton (ds : List Char) (d : Char) :
    value (ds ++ [d]) = 10 * value ds + digitValue d := by
  simp [value]

/-- The written form of a number reads back as that number. -/
theorem value_digits (n : Nat) : value (digits n) = n := by
  fun_induction digits n with
  | case1 n h => simp [value, digitValue_digitChar h]
  | case2 n h ih =>
    rw [value_append_singleton, ih, digitValue_digitChar (Nat.mod_lt n (by decide))]
    omega

/-- Digits read after a number shift it by their count. -/
theorem foldl_digitValue (ds : List Char) (n : Nat) :
    ds.foldl (fun n d => 10 * n + digitValue d) n = n * Nat.pow 10 ds.length + value ds := by
  induction ds generalizing n with
  | nil => simp [value]
  | cons d ds ih =>
    have hpow : Nat.pow 10 (d :: ds).length = Nat.pow 10 ds.length * 10 := rfl
    rw [value, List.foldl_cons, List.foldl_cons, ih, ih (10 * 0 + digitValue d), hpow]
    grind

theorem value_cons (d : Char) (ds : List Char) :
    value (d :: ds) = digitValue d * Nat.pow 10 ds.length + value ds := by
  rw [value, List.foldl_cons, foldl_digitValue, Nat.mul_zero, Nat.zero_add]

/-- Zeros in front do not change what a run of digits denotes. -/
theorem value_significant (ds : List Char) : value (significant ds) = value ds := by
  induction ds with
  | nil => rfl
  | cons d ds ih =>
    by_cases h : d = '0'
    · subst h
      rw [value_cons, ← ih]
      simp [significant, digitValue]
    · simp [significant, h]

theorem isDigit_of_mem_digits {n : Nat} {c : Char} (h : c ∈ digits n) : isDigit c = true := by
  fun_induction digits n with
  | case1 n hn =>
    obtain rfl := List.mem_singleton.mp h
    exact isDigit_digitChar hn
  | case2 n hn ih =>
    rcases List.mem_append.mp h with h | h
    · exact ih h
    · obtain rfl := List.mem_singleton.mp h
      exact isDigit_digitChar (Nat.mod_lt n (by decide))

theorem digits_ne_nil (n : Nat) : digits n ≠ [] := by
  rw [digits]
  split <;> simp

@[simp]
theorem toList_ofNat (n : Nat) : (ofNat n).toList = digits n := by
  simp [ofNat]

/-- Numbers of the same text are the same. -/
theorem ofNat_injective {m n : Nat} (h : ofNat m = ofNat n) : m = n := by
  rw [← value_digits m, ← toList_ofNat, h, toList_ofNat, value_digits]

theorem ofInt_natCast (n : Nat) : ofInt (n : Int) = ofNat n := rfl

/-! ## The digits of the core library -/

theorem digitChar_eq {d : Nat} (h : d < 10) : digitChar d = d.digitChar := by
  have : ∀ d : Fin 10, digitChar d = Nat.digitChar d := by decide
  exact this ⟨d, h⟩

theorem digits_eq_toDigits (n : Nat) : digits n = Nat.toDigits 10 n := by
  fun_induction digits n with
  | case1 n h => rw [Nat.toDigits_of_lt_base h, digitChar_eq h]
  | case2 n h ih =>
    rw [Nat.toDigits_of_base_le (by decide) (Nat.le_of_not_lt h), ih,
      digitChar_eq (Nat.mod_lt n (by decide))]

theorem ofNat_eq_repr (n : Nat) : ofNat n = n.repr := by
  rw [ofNat, digits_eq_toDigits, Nat.repr_eq_ofList_toDigits]

end Abacus.Numeral
