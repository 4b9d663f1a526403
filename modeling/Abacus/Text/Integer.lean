import Abacus.Text.Blank
import Abacus.Text.Numeral

/-!
# Integers as people write them

An integer may have white space around it, a sign in front, single underscores
between its digits, and a fraction of zeros behind. Zeros in front of the number
may be written in any way, with any underscores among them, and a minus sign may
also stand right behind them. Digits are ASCII digits, and there are at most
`Numeral.maxLength` of them, not counting the zeros in front or behind.
-/

namespace Abacus.Text

/-- Splits off the sign. The first component is true of a minus sign. -/
def splitSign : List Char → Bool × List Char
  | '-' :: cs => (true, cs)
  | '+' :: cs => (false, cs)
  | cs => (false, cs)

def withSign (negative : Bool) (n : Nat) : Int := if negative then -(n : Int) else n

/-- Digits with single underscores between them, without the underscores. -/
def groupedDigits? : List Char → Option (List Char)
  | [] => none
  | [c] => if Numeral.isDigit c then some [c] else none
  | c :: '_' :: cs => if Numeral.isDigit c then (groupedDigits? cs).map (c :: ·) else none
  | c :: cs => if Numeral.isDigit c then (groupedDigits? cs).map (c :: ·) else none

/-- True of nothing, and of a point with one or more zeros after it. -/
def isZeroFraction : List Char → Bool
  | [] => true
  | '.' :: cs => !cs.isEmpty && cs.all (· == '0')
  | _ => false

/-- The number that a text denotes which has no sign, and no zero in front
unless that is all of its whole part. -/
def natural? (cs : List Char) : Option Nat :=
  let (whole, fraction) := cs.span (· != '.')
  match groupedDigits? whole with
  | none | some ('0' :: _ :: _) => none
  | some ds =>
    if isZeroFraction fraction && ds.length ≤ Numeral.maxLength then some (Numeral.value ds)
    else none

/-- Drops zeros and underscores in front of a number, as long as a digit, a
minus sign or another underscore follows, so that the zero in front of a point
or at the end stays. -/
def dropZeros : List Char → List Char
  | c :: d :: cs =>
    if (c == '0' || c == '_') && (Numeral.isDigit d || d == '_' || d == '-') then
      dropZeros (d :: cs)
    else c :: d :: cs
  | cs => cs

/-- The integer that a text denotes which has no sign in front of its zeros. An
underscore may follow the minus sign behind them. -/
def unsigned? : List Char → Option Int
  | '0' :: cs =>
    match dropZeros ('0' :: cs) with
    | '-' :: '_' :: cs | '-' :: cs => (natural? cs).map (withSign true)
    | cs => (natural? cs).map (withSign false)
  | cs => (natural? cs).map (withSign false)

/-- The integer that a text denotes. Only one minus sign is allowed. -/
def integer? (s : String) : Option Int :=
  match splitSign (trim isWhiteSpace s.toList) with
  | (negative, cs) =>
    if negative && cs.contains '-' then none
    else (unsigned? cs).map fun v => if negative then -v else v

/-- True of a text that starts with an integer, without white space, plus sign
or zeros in front, that has more than `Numeral.maxLength` digits. -/
def startsOversized (s : String) : Bool :=
  let cs := match s.toList with
    | '-' :: cs => cs
    | cs => cs
  let ds := cs.takeWhile Numeral.isDigit
  ds.head? != some '0' && Numeral.maxLength < ds.length

example : integer? " +1_000.00\n" = some 1000 := by decide +kernel

example : integer? "1_.0" = none := by decide +kernel

example : integer? "0__5_5" = some 55 := by decide +kernel

example : integer? "+0_-_5" = some (-5) := by decide +kernel

end Abacus.Text
