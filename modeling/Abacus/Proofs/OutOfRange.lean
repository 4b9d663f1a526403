import Abacus.Proofs.Checks
import Abacus.Proofs.Nesting
import Abacus.Proofs.Refusal

/-!
# Numbers that are no literals

A number token may hold any integer, and its range is asked for when it becomes a leaf, in
the middle of reading. So tokens can be at fault for their order and for the range of their
numbers at once. Which of the two is told is a matter of positions: the first number out of
range is met at its own position, unless the order of the tokens is at fault there or before.

Results:
1. `exists_quoted`: a fault with a position quotes the token at that position, or none.
2. `message_quoting`: what is said of a token is the same for every token, but for its text.
3. `ofTokens_outOfRange_first`: what comes of tokens with a number out of range, told by what
   comes of them with a zero in the place of each such number.
-/

namespace Abacus

open Outlook OutlookLemmas NestingLemmas

/-! ## 1. The token that a fault quotes -/

/-- The token, with zero in the place of a number out of range. -/
def Token.zeroed : Token → Token
  | .number v => if InRange v then .number v else .number 0
  | t => t

namespace ParseFault

/-- The fault with another token in the place of the one that it quotes, if it quotes one. -/
def quoting (t : Token) : ParseFault → ParseFault
  | .unexpected _ position => .unexpected t position
  | .unclosed _ position => .unclosed t position
  | .trailing _ position => .trailing t position
  | fault => fault

@[simp]
theorem position?_quoting (fault : ParseFault) (t : Token) :
    (fault.quoting t).position? = fault.position? := by
  cases fault <;> rfl

/-- A message stays the same whatever is quoted, or is a text with the quoted token in it. -/
theorem message_quoting (fault : ParseFault) :
    (∀ t, fault.quoting t = fault) ∨
      ∃ front back, ∀ t, (fault.quoting t).message = front ++ t.text ++ back := by
  cases fault with
  | unexpected token position =>
    refine .inr ⟨"Unexpected token '", "' at position " ++ Numeral.ofNat position ++
      ", expected a number or '('", fun t => ?_⟩
    show "Unexpected token '" ++ t.text ++ "' at position " ++ Numeral.ofNat position ++
      ", expected a number or '('" = _
    simp only [String.append_assoc]
  | unclosed token position =>
    refine .inr ⟨"Expected ')', got '", "' at position " ++ Numeral.ofNat position, fun t => ?_⟩
    exact String.append_assoc
  | trailing token position =>
    refine .inr ⟨"Unexpected trailing token '", "' at position " ++ Numeral.ofNat position,
      fun t => ?_⟩
    exact String.append_assoc
  | empty | operandMissing | closingMissing | tooDeep _ _ | outOfRange _ => exact .inl fun _ => rfl

end ParseFault

namespace OutOfRangeLemmas

variable {limit : Int} {position stop : Nat} {s : Outlook} {t : Token} {ts : List Token}
  {fault : ParseFault}

/-- A step that fails at a position does so at its own, and quotes its own token. -/
theorem quotes_of_step_error (h : s.step limit position t = .error fault)
    (hstop : fault.position? = some stop) : stop = position ∧ fault.quoting t = fault := by
  unfold step at h
  split at h
  · split at h <;> cases h
    cases hstop
  · split at h <;> cases h
    cases hstop
    exact ⟨rfl, rfl⟩
  · cases h
    cases hstop
    exact ⟨rfl, rfl⟩
  · cases h
  · cases h
  · cases h
    cases hstop
    exact ⟨rfl, rfl⟩
  · cases h
    cases hstop
    exact ⟨rfl, rfl⟩

end OutOfRangeLemmas

open OutOfRangeLemmas

/-- A fault with a position is one of the token there, which it quotes if it quotes any. -/
theorem exists_quoted {limit : Int} {ts : List Token} {fault : ParseFault} {position : Nat}
    (h : Expr.ofTokens limit ts = .error fault) (hposition : fault.position? = some position) :
    ∃ t, ts[position - 1]? = some t ∧ fault.quoting t = fault := by
  have hverdict : verdict limit 1 ⟨true, 0⟩ ts = .error fault := ofTokens_eq_error.mp h
  rw [verdict] at hverdict
  split at hverdict
  · next hrun =>
    cases hverdict
    obtain ⟨before, t, after, s, rfl, -, hstep⟩ := run_eq_error hrun
    obtain ⟨rfl, hquoting⟩ := quotes_of_step_error hstep hposition
    exact ⟨t, by simp, hquoting⟩
  · rw [position_of_finish_error hverdict] at hposition
    cases hposition

/-! ## 2. Tokens with zeros -/

namespace OutOfRangeLemmas

variable {limit : Int} {position : Nat} {s : Outlook} {v : Int} {before after ts : List Token}
  {fault : ParseFault}

theorem zeroed_of_inRange (h : InRange v) : (Token.number v).zeroed = .number v := if_pos h

theorem zeroed_of_not_inRange (h : ¬ InRange v) : (Token.number v).zeroed = .number 0 := if_neg h

theorem map_zeroed (h : NumbersInRange ts) : ts.map Token.zeroed = ts := by
  refine (List.map_congr_left fun t ht => ?_).trans (List.map_id ts)
  cases t with
  | number v => exact zeroed_of_inRange (h v ht)
  | operator op | opening | closing => rfl

theorem numbersInRange_map_zeroed (ts : List Token) : NumbersInRange (ts.map Token.zeroed) := by
  intro v hv
  obtain ⟨t, -, ht⟩ := List.mem_map.mp hv
  cases t with
  | number w =>
    by_cases hw : InRange w
    · rw [zeroed_of_inRange hw] at ht
      cases ht
      exact hw
    · rw [zeroed_of_not_inRange hw] at ht
      cases ht
      decide
  | operator op | opening | closing => cases ht

theorem position_le_of_run_error (h : NumbersInRange before)
    (hrun : s.run limit position before = .error fault) :
    ∃ stop, fault.position? = some stop ∧ stop < position + before.length := by
  obtain ⟨front, t, back, s', rfl, -, hstep⟩ := run_eq_error hrun
  have hstop := position_of_step_error (fun v hv => h v (by simp [hv])) hstep
  refine ⟨_, hstop, ?_⟩
  rw [List.length_append, List.length_cons]
  omega

/-- Where no operand is wanted any number is at fault, and no matter which. -/
theorem step_number_unwanted (limit : Int) (position : Nat) (h : s.wanted = false) (v w : Int) :
    ∃ fault, s.step limit position (.number v) = .error fault ∧
      s.step limit position (.number w) = .error (fault.quoting (.number w)) ∧
      fault.position? = some position := by
  obtain ⟨wanted, opened⟩ := s
  obtain rfl : wanted = false := h
  cases opened with
  | zero => exact ⟨.trailing (.number v) position, rfl, rfl, rfl⟩
  | succ opened => exact ⟨.unclosed (.number v) position, rfl, rfl, rfl⟩

/-- Where an operand is wanted a number out of range is at fault, and a zero is not. -/
theorem step_number_wanted (limit : Int) (position : Nat) (h : s.wanted = true) {range : RangeFault}
    (hv : literal? v = .error range) :
    s.step limit position (.number v) = .error (.outOfRange range) ∧
      s.step limit position (.number 0) = .ok ⟨false, s.opened⟩ := by
  obtain ⟨wanted, opened⟩ := s
  obtain rfl : wanted = true := h
  refine ⟨?_, rfl⟩
  rw [step, hv]

/-- A number out of range is below zero or above the greatest number. -/
theorem literal?_of_not_inRange (h : ¬ InRange v) :
    ∃ range, literal? v = .error range ∧ (range = .negative ↔ v < 0) ∧
      (range = .tooLarge ↔ maxValue < v) := by
  unfold literal?
  split
  · next hneg => exact ⟨.negative, rfl, by simp [hneg], by simp; omega⟩
  · next hneg =>
    unfold InRange at h
    rw [if_pos (by omega)]
    exact ⟨.tooLarge, rfl, by simp; omega, by simp; omega⟩

theorem zeroed_append (hbefore : NumbersInRange before) (hv : ¬ InRange v) :
    (before ++ .number v :: after).map Token.zeroed =
      before ++ .number 0 :: after.map Token.zeroed := by
  rw [List.map_append, List.map_cons, map_zeroed hbefore, zeroed_of_not_inRange hv]

/-- The first number out of range either comes too late, behind or at a fault that zeros in
its place do not mend, or it is what the tokens are refused for. -/
theorem outOfRange_cases (limit : Int) (after : List Token) (hbefore : NumbersInRange before)
    (hv : ¬ InRange v) :
    (∃ fault position t, Expr.ofTokens limit ((before ++ .number v :: after).map .zeroed) =
        .error fault ∧ fault.position? = some position ∧ position ≤ before.length + 1 ∧
      (before ++ .number v :: after)[position - 1]? = some t ∧
      Expr.ofTokens limit (before ++ .number v :: after) = .error (fault.quoting t)) ∨
    (∀ fault position, Expr.ofTokens limit ((before ++ .number v :: after).map .zeroed) =
        .error fault → fault.position? = some position → before.length + 1 < position) ∧
      ∃ range, Expr.ofTokens limit (before ++ .number v :: after) = .error (.outOfRange range) ∧
        literal? v = .error range := by
  rw [zeroed_append hbefore hv]
  cases hrun : run limit 1 ⟨true, 0⟩ before with
  | error fault =>
    -- Both passes stop in front of the number, at the same token.
    obtain ⟨position, hposition, hlt⟩ := position_le_of_run_error hbefore hrun
    have hfault (more : List Token) : Expr.ofTokens limit (before ++ more) = .error fault := by
      rw [ofTokens_eq_error, verdict, run_append_error hrun]
    obtain ⟨t, ht, hquoting⟩ := exists_quoted (hfault _) hposition
    exact .inl ⟨fault, position, t, hfault _, hposition, by omega, ht,
      by rw [hquoting]; exact hfault _⟩
  | ok s =>
    cases hwanted : s.wanted with
    | false =>
      obtain ⟨fault, hzero, hnumber, hposition⟩ :=
        step_number_unwanted limit (1 + before.length) hwanted 0 v
      refine .inl ⟨fault, 1 + before.length, .number v, ?_, hposition, by omega, by simp, ?_⟩
      · rw [ofTokens_eq_error, verdict_append hrun, verdict_cons_error hzero]
      · rw [ofTokens_eq_error, verdict_append hrun, verdict_cons_error hnumber]
    | true =>
      obtain ⟨range, hrange, -⟩ := literal?_of_not_inRange hv
      obtain ⟨hnumber, hzero⟩ := step_number_wanted limit (1 + before.length) hwanted hrange
      refine .inr ⟨fun fault position hfault hposition => ?_, range, ?_, hrange⟩
      · -- Behind the zero the pass goes on, so whatever is at fault comes later.
        rw [ofTokens_eq_error, verdict_append hrun, verdict_cons hzero] at hfault
        rcases position_of_verdict_error (numbersInRange_map_zeroed after) hfault with
          (rfl | rfl | rfl) | ⟨stop, hstop, hle⟩
        · cases hposition
        · cases hposition
        · cases hposition
        · obtain rfl : stop = position := Option.some.inj (hstop.symm.trans hposition)
          omega
      · rw [ofTokens_eq_error, verdict_append hrun, verdict_cons_error hnumber]

end OutOfRangeLemmas

/-- Tokens whose numbers are all in range are never refused for the range of a number. Let a
number out of range stand behind tokens without one. Where the same tokens with zeros in the
place of the numbers out of range are at fault at that number or in front of it, so are the
tokens themselves, at the same position and in the same words, but for the token that is
quoted. In every other case the number is refused for its range, as negative or too large. -/
theorem ofTokens_outOfRange_first (limit : Int) :
    (∀ ts, NumbersInRange ts → ∀ range, Expr.ofTokens limit ts ≠ .error (.outOfRange range)) ∧
    ∀ (before after : List Token) (v : Int), NumbersInRange before → ¬ InRange v →
      let ts := before ++ .number v :: after
      let k := before.length + 1
      (∀ fault position, Expr.ofTokens limit (ts.map .zeroed) = .error fault →
        fault.position? = some position → position ≤ k →
          ∃ t, ts[position - 1]? = some t ∧ fault.quoting t.zeroed = fault ∧
            Expr.ofTokens limit ts = .error (fault.quoting t) ∧
            (fault.quoting t).position? = some position ∧
            (fault.quoting t = fault ∨
              ∃ front back, fault.message = front ++ t.zeroed.text ++ back ∧
                (fault.quoting t).message = front ++ t.text ++ back)) ∧
      ((¬ ∃ fault position, Expr.ofTokens limit (ts.map .zeroed) = .error fault ∧
          fault.position? = some position ∧ position ≤ k) →
        ∃ range, Expr.ofTokens limit ts = .error (.outOfRange range) ∧
          (range = .negative ↔ v < 0) ∧ (range = .tooLarge ↔ maxValue < v)) := by
  refine ⟨fun ts hts => ofTokens_ne_outOfRange hts, fun before after v hbefore hv => ?_⟩
  intro ts k
  rcases outOfRange_cases limit after hbefore hv with
    ⟨fault, position, t, hzeros, hposition, hle, ht, hts⟩ | ⟨hlate, range, hts, hrange⟩
  · refine ⟨fun fault' position' hzeros' hposition' _ => ?_, fun h => ?_⟩
    · obtain rfl : fault = fault' := Except.error.inj (hzeros.symm.trans hzeros')
      obtain rfl : position = position' := Option.some.inj (hposition.symm.trans hposition')
      obtain ⟨u, hu, hquoting⟩ := exists_quoted hzeros hposition
      obtain rfl : t.zeroed = u := by
        rw [List.getElem?_map, ht] at hu
        exact Option.some.inj hu
      refine ⟨t, ht, hquoting, hts, by rwa [ParseFault.position?_quoting], ?_⟩
      rcases fault.message_quoting with hsame | ⟨front, back, hmessage⟩
      · exact .inl (hsame t)
      · exact .inr ⟨front, back, by rw [← hmessage, hquoting], hmessage t⟩
    · exact absurd ⟨fault, position, hzeros, hposition, hle⟩ h
  · refine ⟨fun fault position hzeros hposition hle => ?_, fun _ => ?_⟩
    · exact absurd (hlate fault position hzeros hposition) (Nat.not_lt.mpr hle)
    · obtain ⟨range', hrange', hside⟩ := literal?_of_not_inRange hv
      obtain rfl : range = range' := Except.error.inj (hrange.symm.trans hrange')
      exact ⟨range, hts, hside⟩

/-- In `( 18446744073709551616 + )` the number is out of range before an operand is missed, and
in `1 -5`, two numbers, the second one is out of place before it is out of range. -/
theorem ofTokens_outOfRange_first_both :
    (NumbersInRange [.opening] ∧ ¬ InRange 18446744073709551616 ∧
      Expr.ofTokens 200 [.opening, .number 0, .operator .add, .closing] =
        .error (.unexpected .closing 4) ∧
      Expr.ofTokens 200 [.opening, .number 18446744073709551616, .operator .add, .closing] =
        .error (.outOfRange .tooLarge)) ∧
    (NumbersInRange [.number 1] ∧ ¬ InRange (-5) ∧
      Expr.ofTokens 200 [.number 1, .number 0] = .error (.trailing (.number 0) 2) ∧
      Expr.ofTokens 200 [.number 1, .number (-5)] = .error (.trailing (.number (-5)) 2)) := by
  have hlarge : ¬ InRange 18446744073709551616 := by decide
  have hnegative : ¬ InRange (-5) := by decide
  have hopening : NumbersInRange [.opening] := by decide
  have hone : NumbersInRange [.number 1] := by decide
  have hmissing : Expr.ofTokens 200 [.opening, .number 0, .operator .add, .closing] =
      .error (.unexpected .closing 4) := ofTokens_eq_error.mpr rfl
  have htrailing : Expr.ofTokens 200 [.number 1, .number 0] = .error (.trailing (.number 0) 2) :=
    ofTokens_eq_error.mpr rfl
  have hrace := (ofTokens_outOfRange_first 200).2
  obtain ⟨range, hrange, -, hside⟩ := (hrace [.opening] [.operator .add, .closing] _ hopening
    hlarge).2 fun ⟨fault, position, hfault, hposition, hle⟩ => by
      cases hmissing.symm.trans hfault
      cases hposition
      exact absurd hle (by decide)
  obtain ⟨t, ht, -, hquoted, -⟩ := (hrace [.number 1] [] _ hone hnegative).1 _ 2 htrailing rfl
    (by decide)
  refine ⟨⟨hopening, hlarge, hmissing, ?_⟩, hone, hnegative, htrailing, ?_⟩
  · obtain rfl : range = .tooLarge := hside.mpr (by decide)
    exact hrange
  · obtain rfl : Token.number (-5) = t := Option.some.inj ht
    exact hquoted

end Abacus
