import Abacus.Proofs.Outlook

/-!
# How tokens are refused

The wording of a refusal can be told without reading an expression: one pass that
keeps an outlook and nothing else knows every message and every position. Here the
pass speaks in its own words, and they are compared with those of the reader.

Results:
1. `acceptAll_eq_verdict`: on numbers in range the words of the pass are those of its
   verdict.
2. `ofTokens_refused_as_acceptAll`: the pass accepts exactly the tokens that form an
   expression, and all others are refused with its message and position.
-/

namespace Abacus

/-- What is said of tokens that are no expression. -/
structure Refusal where
  message : String
  position : Option Nat
  deriving DecidableEq, Repr

def ParseFault.refusal (fault : ParseFault) : Refusal := ⟨fault.message, fault.position?⟩

/-! ## 1. The pass in its own words -/

namespace Outlook

/-- Accepts one more token, which has the given position, or says why it cannot come
next. A number is an operand whatever its value. -/
def accept (limit : Int) (position : Nat) (s : Outlook) (t : Token) : Except Refusal Outlook :=
  if s.wanted then
    match t with
    | .number _ => .ok ⟨false, s.opened⟩
    | .opening =>
      if limit ≤ s.opened then
        .error ⟨"Expression nested too deeply at position " ++ Numeral.ofNat position ++
          " (limit is " ++ Numeral.ofInt limit ++ ")", some position⟩
      else .ok ⟨true, s.opened + 1⟩
    | t =>
      .error ⟨"Unexpected token '" ++ t.text ++ "' at position " ++ Numeral.ofNat position ++
        ", expected a number or '('", some position⟩
  else if s.opened = 0 then
    match t with
    | .operator _ => .ok ⟨true, 0⟩
    | t =>
      .error ⟨"Unexpected trailing token '" ++ t.text ++ "' at position " ++
        Numeral.ofNat position, some position⟩
  else
    match t with
    | .operator _ => .ok ⟨true, s.opened⟩
    | .closing => .ok ⟨false, s.opened - 1⟩
    | t =>
      .error ⟨"Expected ')', got '" ++ t.text ++ "' at position " ++ Numeral.ofNat position,
        some position⟩

/-- Accepts the end of the tokens in front of the given position. -/
def acceptEnd (position : Nat) (s : Outlook) : Except Refusal Unit :=
  if s.wanted then
    if position = 1 then .error ⟨"Empty expression: expected a number or '('", none⟩
    else .error ⟨"Unexpected end of input, expected a number or '('", none⟩
  else if s.opened = 0 then .ok ()
  else .error ⟨"Unexpected end of input, expected ')'", none⟩

/-- Accepts tokens of which the first has the given position, and then the end. -/
def acceptAll (limit : Int) : (position : Nat) → Outlook → List Token → Except Refusal Unit
  | position, s, [] => s.acceptEnd position
  | position, s, t :: ts =>
    match s.accept limit position t with
    | .error refusal => .error refusal
    | .ok s => acceptAll limit (position + 1) s ts

end Outlook

open Outlook OutlookLemmas

/-! ## 2. The words are those of the verdict -/

namespace RefusalLemmas

theorem numbersInRange_iff {ts : List Token} :
    NumbersInRange ts ↔ ∀ t ∈ ts, ∀ v ∈ t.value?, InRange v := by
  constructor
  · intro h t ht v hv
    cases t with
    | number w =>
      obtain rfl : w = v := Option.some.inj hv
      exact h w ht
    | operator _ | opening | closing => cases hv
  · intro h v hv
    exact h (.number v) hv v rfl

theorem acceptEnd_eq_finish (position : Nat) (s : Outlook) :
    s.acceptEnd position = (s.finish position).mapError ParseFault.refusal := by
  rcases s with ⟨_ | _, _ | opened⟩
  · rfl
  · rfl
  all_goals
    show (if position = 1 then _ else _) = Except.mapError _ (if position = 1 then _ else _)
    split <;> rfl

theorem accept_eq_step (limit : Int) (position : Nat) (s : Outlook) {t : Token}
    (ht : ∀ v, t = .number v → InRange v) :
    s.accept limit position t = (s.step limit position t).mapError ParseFault.refusal := by
  rcases s with ⟨_ | _, opened⟩
  · rcases opened with _ | opened <;> cases t <;> rfl
  · cases t with
    | number v =>
      obtain ⟨w, hw⟩ := exists_literal?_eq_ok.mpr (ht v rfl)
      rw [step, hw]
      rfl
    | opening =>
      show (if limit ≤ opened then _ else _) = Except.mapError _ (if limit ≤ opened then _ else _)
      split <;> rfl
    | operator op => rfl
    | closing => rfl

end RefusalLemmas

open RefusalLemmas

instance (ts : List Token) : Decidable (NumbersInRange ts) :=
  decidable_of_iff _ numbersInRange_iff.symm

/-- On numbers in range the words of the pass are those of its verdict. -/
theorem acceptAll_eq_verdict {limit : Int} {position : Nat} {s : Outlook} {ts : List Token}
    (hts : NumbersInRange ts) :
    s.acceptAll limit position ts =
      (s.verdict limit position ts).mapError ParseFault.refusal := by
  induction ts generalizing position s with
  | nil => exact acceptEnd_eq_finish position s
  | cons t ts ih =>
    have htail : NumbersInRange ts := fun v hv => hts v (List.mem_cons_of_mem t hv)
    have ht : ∀ v, t = .number v → InRange v := by
      intro v hv
      exact hts v (hv ▸ List.mem_cons_self)
    rw [acceptAll, accept_eq_step limit position s ht]
    cases hstep : s.step limit position t with
    | error fault =>
      rw [verdict_cons_error hstep]
      rfl
    | ok s' =>
      rw [verdict_cons hstep]
      exact ih htail

/-! ## 3. Reading and accepting -/

/-- Whether tokens form an expression, and otherwise the message and the position of
the fault, is what one pass finds that keeps in mind only whether an operand is wanted
and how many parentheses are open. -/
theorem ofTokens_refused_as_acceptAll (limit : Int) (ts : List Token) (hts : NumbersInRange ts) :
    ((Expr.ofTokens limit ts).map fun _ => ()).mapError ParseFault.refusal =
      acceptAll limit 1 ⟨true, 0⟩ ts := by
  rw [acceptAll_eq_verdict hts, verdict_ofTokens]

/-- In `( 1 + 2 3` a number stands where the parenthesis has to be closed. -/
theorem ofTokens_refused_as_acceptAll_unclosed :
    NumbersInRange [.opening, .number 1, .operator .add, .number 2, .number 3] ∧
      ((Expr.ofTokens 200 [.opening, .number 1, .operator .add, .number 2, .number 3]).map
        fun _ => ()).mapError ParseFault.refusal =
        .error ⟨"Expected ')', got '3' at position 5", some 5⟩ := by
  have hts : NumbersInRange [.opening, .number 1, .operator .add, .number 2, .number 3] := by
    decide
  refine ⟨hts, ?_⟩
  have hnumber : Numeral.ofInt 3 = "3" := by decide +kernel
  have hposition : Numeral.ofNat 5 = "5" := by decide +kernel
  rw [ofTokens_refused_as_acceptAll 200 _ hts]
  show Except.error (Refusal.mk ("Expected ')', got '" ++ Numeral.ofInt 3 ++ "' at position " ++
    Numeral.ofNat 5) (some 5)) = _
  rw [hnumber, hposition]
  rfl

end Abacus
