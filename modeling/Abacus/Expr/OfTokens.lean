import Abacus.Expr.Basic
import Abacus.Token.Basic

/-!
# Expressions from tokens

A sequence of tokens is an expression if the grammar derives it:

* an expression is terms joined by `+` and `-`,
* a term is factors joined by `*` and `/`,
* a factor is a number, or an expression in parentheses.

Operators of one rule group to the left. Parentheses may nest as deep as a
limit allows. Each rule reads the longest phrase it can off the front of the
tokens and hands back the rest, which is always shorter. The rules call each
other once for every open parenthesis, and nothing but the limit bounds that: a
machine whose stack ends before is left aside.

Positions in faults count tokens from one. A fault without a position means
that the tokens ended where more were needed.
-/

namespace Abacus

/-- The rules of the grammar, from the loosest to the tightest. -/
inductive Rule where
  | expression
  | term
  | factor
  deriving DecidableEq, Repr

namespace Rule

/-- The rule of the operands that a rule joins. -/
def operand : Rule → Rule
  | .expression => .term
  | .term => .factor
  | .factor => .factor

/-- True of the operators by which a rule joins its operands. -/
def joins : Rule → Operator → Bool
  | .expression, op => op.precedence == 1
  | .term, op => op.precedence == 2
  | .factor, _ => false

/-- The number of rules below a rule. -/
def rank : Rule → Nat
  | .expression => 2
  | .term => 1
  | .factor => 0

end Rule

/-- Why reading stopped, with the tokens that were left. -/
inductive Halt where
  /-- An operand was wanted in front of these tokens. -/
  | operandWanted (rest : List Token)
  /-- A closing parenthesis was wanted in front of these tokens. -/
  | closingWanted (rest : List Token)
  /-- The parenthesis opened just before these tokens is one too many. -/
  | tooDeep (rest : List Token)
  | outOfRange (fault : RangeFault)
  deriving DecidableEq, Repr

/-- A phrase read off the front of some tokens: its tree, and the tokens after
it, which are fewer than `bound`. -/
structure Phrase (bound : Nat) where
  tree : Expr
  rest : List Token
  length_rest_lt : rest.length < bound

def Phrase.widen {a b : Nat} (p : Phrase a) (h : a ≤ b) : Phrase b :=
  ⟨p.tree, p.rest, Nat.lt_of_lt_of_le p.length_rest_lt h⟩

mutual

/-- Reads a phrase of a rule inside `depth` open parentheses. -/
def readPhrase (limit : Int) (depth : Nat) (rule : Rule) (ts : List Token) :
    Except Halt (Phrase ts.length) :=
  match rule with
  | .factor =>
    match ts with
    | .number v :: rest =>
      match literal? v with
      | .ok value => .ok ⟨.literal value, rest, Nat.lt_succ_self _⟩
      | .error fault => .error (.outOfRange fault)
    | .opening :: rest =>
      if limit ≤ depth then .error (.tooDeep rest)
      else
        match readPhrase limit (depth + 1) .expression rest with
        | .error halt => .error halt
        | .ok inner =>
          match h : inner.rest with
          | .closing :: after =>
            .ok ⟨inner.tree, after, by
              have := inner.length_rest_lt
              simp only [h, List.length_cons] at this ⊢
              omega⟩
          | after => .error (.closingWanted after)
    | rest => .error (.operandWanted rest)
  | .term =>
    match readPhrase limit depth .factor ts with
    | .error halt => .error halt
    | .ok first =>
      match extendPhrase limit depth .term first.tree first.rest with
      | .error halt => .error halt
      | .ok phrase => .ok (phrase.widen first.length_rest_lt)
  | .expression =>
    match readPhrase limit depth .term ts with
    | .error halt => .error halt
    | .ok first =>
      match extendPhrase limit depth .expression first.tree first.rest with
      | .error halt => .error halt
      | .ok phrase => .ok (phrase.widen first.length_rest_lt)
termination_by (ts.length, rule.rank + 1)
decreasing_by
  · exact Prod.Lex.left _ _ (Nat.lt_succ_self _)
  · exact Prod.Lex.right _ (by decide)
  · exact Prod.Lex.left _ _ first.length_rest_lt
  · exact Prod.Lex.right _ (by decide)
  · exact Prod.Lex.left _ _ first.length_rest_lt

/-- Extends a phrase of a rule by the operators and operands that follow it. -/
def extendPhrase (limit : Int) (depth : Nat) (rule : Rule) (tree : Expr) (ts : List Token) :
    Except Halt (Phrase (ts.length + 1)) :=
  match ts with
  | .operator op :: rest =>
    if rule.joins op then
      match readPhrase limit depth rule.operand rest with
      | .error halt => .error halt
      | .ok right =>
        match extendPhrase limit depth rule (.binary op tree right.tree) right.rest with
        | .error halt => .error halt
        | .ok phrase =>
          .ok (phrase.widen (by
            have := right.length_rest_lt
            simp only [List.length_cons]
            omega))
    else .ok ⟨tree, .operator op :: rest, Nat.lt_succ_self _⟩
  | rest => .ok ⟨tree, rest, Nat.lt_succ_self _⟩
termination_by (ts.length, 0)
decreasing_by
  · exact Prod.Lex.left _ _ (Nat.lt_succ_self _)
  · exact Prod.Lex.left _ _ (Nat.lt_trans right.length_rest_lt (Nat.lt_succ_self _))

end

/-- Why tokens are no expression. -/
inductive ParseFault where
  | empty
  /-- The tokens end where an operand is wanted. -/
  | operandMissing
  /-- The tokens end where a closing parenthesis is wanted. -/
  | closingMissing
  /-- The token stands where an operand is wanted. -/
  | unexpected (token : Token) (position : Nat)
  /-- The token stands where a closing parenthesis is wanted. -/
  | unclosed (token : Token) (position : Nat)
  /-- The token stands after the end of the expression. -/
  | trailing (token : Token) (position : Nat)
  /-- The parenthesis at the position is nested deeper than the limit. -/
  | tooDeep (position : Nat) (limit : Int)
  | outOfRange (fault : RangeFault)
  deriving DecidableEq, Repr

namespace ParseFault

/-- The position of the token at fault, if there is one. -/
def position? : ParseFault → Option Nat
  | .unexpected _ position | .unclosed _ position | .trailing _ position
  | .tooDeep position _ => some position
  | .empty | .operandMissing | .closingMissing | .outOfRange _ => none

def message : ParseFault → String
  | .empty => "Empty expression: expected a number or '('"
  | .operandMissing => "Unexpected end of input, expected a number or '('"
  | .closingMissing => "Unexpected end of input, expected ')'"
  | .unexpected token position =>
    "Unexpected token '" ++ token.text ++ "' at position " ++ Numeral.ofNat position ++
      ", expected a number or '('"
  | .unclosed token position =>
    "Expected ')', got '" ++ token.text ++ "' at position " ++ Numeral.ofNat position
  | .trailing token position =>
    "Unexpected trailing token '" ++ token.text ++ "' at position " ++ Numeral.ofNat position
  | .tooDeep position limit =>
    "Expression nested too deeply at position " ++ Numeral.ofNat position ++
      " (limit is " ++ Numeral.ofInt limit ++ ")"
  | .outOfRange .negative => "Literal is negative"
  | .outOfRange .tooLarge => "Literal exceeds " ++ Numeral.ofNat maxValue

end ParseFault

/-- The fault of a halt, with positions in the tokens `ts` that were read. -/
def Halt.fault (limit : Int) (ts : List Token) : Halt → ParseFault
  | .operandWanted [] => if ts.isEmpty then .empty else .operandMissing
  | .operandWanted (t :: rest) => .unexpected t (ts.length - rest.length)
  | .closingWanted [] => .closingMissing
  | .closingWanted (t :: rest) => .unclosed t (ts.length - rest.length)
  | .tooDeep rest => .tooDeep (ts.length - rest.length) limit
  | .outOfRange fault => .outOfRange fault

/-- The expression that all of the tokens together form. -/
def Expr.ofTokens (limit : Int) (ts : List Token) : Except ParseFault Expr :=
  match readPhrase limit 0 .expression ts with
  | .error halt => .error (halt.fault limit ts)
  | .ok phrase =>
    match phrase.rest with
    | [] => .ok phrase.tree
    | t :: rest => .error (.trailing t (ts.length - rest.length))

end Abacus
