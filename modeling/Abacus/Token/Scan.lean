import Abacus.Literal
import Abacus.Text.Blank
import Abacus.Token.Basic

/-!
# Scanning

Splitting a line into tokens. Blanks separate tokens and are dropped. A longest
run of digits is a number and must not exceed `maxValue`, however many zeros
stand in front. An operator or parenthesis is a token of its own. The first
character that fits nowhere, or the first digit of a number that is too large,
ends the scan. Its index counts characters from one.
-/

namespace Abacus.Token

/-- What the scanner cannot read. -/
inductive ScanCause where
  | invalid (c : Char)
  | tooLarge
  deriving DecidableEq, Repr

/-- Where scanning stopped, and why. The index counts from one. -/
structure ScanFault where
  cause : ScanCause
  index : Nat
  deriving DecidableEq, Repr

def ScanFault.message (f : ScanFault) : String :=
  match f.cause with
  | .invalid c =>
    "Invalid token " ++ Text.quote (String.singleton c) ++ " at index: " ++ Numeral.ofNat f.index
  | .tooLarge => "Number too large at index: " ++ Numeral.ofNat f.index

/-- The token that a single character makes. -/
def ofChar? (c : Char) : Option Token :=
  if c = '(' then some .opening
  else if c = ')' then some .closing
  else (Operator.ofSymbol? c).map .operator

def maxDigits : Nat := (Numeral.digits maxValue).length

/-- True of digits, with no zero in front, that denote a number above `maxValue`.
Digits that are too many for that are not valued. -/
def exceedsMax (ds : List Char) : Bool :=
  maxDigits < ds.length || maxValue < Numeral.value ds

/-- The tokens of a text whose first character has the given index. -/
def scanFrom (index : Nat) : List Char → Except ScanFault (List Token)
  | [] => .ok []
  | c :: cs =>
    if Text.isBlank c then scanFrom (index + 1) cs
    else if Numeral.isDigit c then
      let run := c :: cs.takeWhile Numeral.isDigit
      let ds := Numeral.significant run
      if exceedsMax ds then .error ⟨.tooLarge, index⟩
      else
        (Token.number (Numeral.value ds) :: ·) <$>
          scanFrom (index + run.length) (cs.dropWhile Numeral.isDigit)
    else
      match ofChar? c with
      | some t => (t :: ·) <$> scanFrom (index + 1) cs
      | none => .error ⟨.invalid c, index⟩
termination_by cs => cs.length
decreasing_by
  · simp
  · have := (List.dropWhile_suffix (l := cs) Numeral.isDigit).length_le
    simp only [List.length_cons]
    omega
  · simp

def scan (line : String) : Except ScanFault (List Token) :=
  scanFrom 1 line.toList

end Abacus.Token
