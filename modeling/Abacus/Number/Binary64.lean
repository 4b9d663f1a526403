import Abacus.Text.Numeral

/-!
# Binary floating point numbers of 64 bits

A finite number of this format is a mantissa of at most 2^53 times a power
of two between 2^-1074 and 2^971. `Binary64.ofDecimal` is the number nearest to
a decimal one, the even mantissa winning a tie. A decimal number too large for
the format becomes infinite.
-/

namespace Abacus

/-- A binary floating point number of 64 bits. -/
inductive Binary64 where
  | nan
  | infinite (negative : Bool)
  /-- The number `mantissa * 2 ^ exponent`, with a sign. -/
  | finite (negative : Bool) (mantissa : Nat) (exponent : Int)
  deriving DecidableEq, Repr

namespace Binary64

/-- The quotient of two numbers, rounded to the nearest integer, the even one
winning a tie. -/
def roundDiv (num den : Nat) : Nat :=
  let q := num / den
  let twice := 2 * (num % den)
  if den < twice ∨ (twice = den ∧ q % 2 = 1) then q + 1 else q

/-- The fraction `num / den` divided by `2 ^ e`, as a numerator and a denominator. -/
def scale (num den : Nat) (e : Int) : Nat × Nat :=
  if 0 ≤ e then (num, den * Nat.pow 2 e.toNat) else (num * Nat.pow 2 (-e).toNat, den)

/-- The least exponent that leaves `num / den` a mantissa of at most 2^53. -/
def exponentFor (num den : Nat) : Int :=
  let guess : Int := (num.log2 : Int) - den.log2 - 53
  let (n, d) := scale num den guess
  max (if Nat.pow 2 53 ≤ n / d then guess + 1 else guess) (-1074)

/-- The number nearest to a fraction. -/
def ofFraction (negative : Bool) (num den : Nat) : Binary64 :=
  let e := exponentFor num den
  let (n, d) := scale num den e
  let m := roundDiv n d
  if m = 0 then .finite negative 0 0
  else if 1024 ≤ (m.log2 : Int) + e then .infinite negative
  else .finite negative m e

/-- The number nearest to `digits * 10 ^ exponent`. Numbers with more than 310
digits before the point are infinite, and numbers with more than 330 zeros
after it are zero, so that the exponent may be of any size. -/
def ofDecimal (negative : Bool) (digits : Nat) (exponent : Int) : Binary64 :=
  let top : Int := (Numeral.digits digits).length + exponent
  if digits = 0 ∨ top < -330 then .finite negative 0 0
  else if 310 < top then .infinite negative
  else if 0 ≤ exponent then ofFraction negative (digits * Nat.pow 10 exponent.toNat) 1
  else ofFraction negative digits (Nat.pow 10 (-exponent).toNat)

/-- True of the numbers that are neither infinite nor undefined. -/
def isFinite : Binary64 → Bool
  | .finite _ _ _ => true
  | _ => false

/-- The integer that a number is, if it is one. -/
def toInt? : Binary64 → Option Int
  | .finite negative mantissa exponent =>
    let signed (n : Nat) : Int := if negative then -(n : Int) else n
    if 0 ≤ exponent then some (signed (mantissa * Nat.pow 2 exponent.toNat))
    else
      let unit := Nat.pow 2 (-exponent).toNat
      if mantissa % unit = 0 then some (signed (mantissa / unit)) else none
  | _ => none

example : (ofDecimal false 1 2).toInt? = some 100 := by decide +kernel

example : (ofDecimal true 25 (-1)).toInt? = none := by decide +kernel

example : (ofDecimal false 49999999999999999999 (-19)).toInt? = some 5 := by decide +kernel

example : ofDecimal false 1 400 = .infinite false := by decide +kernel

end Binary64

end Abacus
