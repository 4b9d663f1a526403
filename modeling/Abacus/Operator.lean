/-!
# Operators

The four binary operators, their symbols and how tightly they bind.
-/

namespace Abacus

/-- A binary arithmetic operator. -/
inductive Operator where
  | add
  | sub
  | mul
  | div
  deriving DecidableEq, Repr

namespace Operator

/-- The character that stands for an operator. -/
def symbol : Operator → Char
  | .add => '+'
  | .sub => '-'
  | .mul => '*'
  | .div => '/'

/-- The operator that a character stands for. -/
def ofSymbol? (c : Char) : Option Operator :=
  if c = '+' then some .add
  else if c = '-' then some .sub
  else if c = '*' then some .mul
  else if c = '/' then some .div
  else none

/-- The symbol of an operator as a text. -/
def text (op : Operator) : String := String.singleton op.symbol

def ofText? (s : String) : Option Operator :=
  match s.toList with
  | [c] => ofSymbol? c
  | _ => none

/-- How tightly an operator binds its operands. -/
def precedence : Operator → Nat
  | .add | .sub => 1
  | .mul | .div => 2

theorem ofSymbol?_symbol (op : Operator) : ofSymbol? op.symbol = some op := by
  cases op <;> rfl

theorem ofSymbol?_eq_some {c : Char} {op : Operator} :
    ofSymbol? c = some op ↔ c = op.symbol := by
  constructor
  · intro h
    unfold ofSymbol? at h
    split at h
    · next hc => cases h; exact hc
    · split at h
      · next hc => cases h; exact hc
      · split at h
        · next hc => cases h; exact hc
        · split at h
          · next hc => cases h; exact hc
          · cases h
  · rintro rfl
    exact ofSymbol?_symbol op

theorem ofText?_text (op : Operator) : ofText? op.text = some op := by
  cases op <;> rfl

theorem text_injective {op op' : Operator} (h : op.text = op'.text) : op = op' := by
  refine Option.some.inj ?_
  rw [← ofText?_text op, h, ofText?_text]

end Operator

end Abacus
