import Abacus.Proofs.Grammar

/-!
# What may come next

Whether tokens are an expression can be told from left to right with little in
mind: whether an operand is wanted next, and how many parentheses are open. This
outlook is kept by one pass over the tokens, without a tree and without the rules
of the grammar. The pass stops at a token that cannot come next, or at the end.

Results:
1. `verdict_ofTokens`: the pass accepts exactly the tokens that form an
   expression, and names the same fault for all others.
2. `verdict_completion`: from every outlook some tokens lead to an accepted end.
3. `ofTokens_fault_earliest`: a fault with a position is named at the first
   token with which no expression can begin, and a fault without one is named
   where more tokens could still make an expression.
-/

namespace Abacus

/-! ## 1. One pass over the tokens -/

/-- What the tokens so far leave open: whether an operand is wanted next, and how
many parentheses wait to be closed. -/
structure Outlook where
  wanted : Bool
  opened : Nat
  deriving DecidableEq, Repr

namespace Outlook

/-- The outlook after one more token, which has the given position. -/
def step (limit : Int) (position : Nat) : Outlook → Token → Except ParseFault Outlook
  | ⟨true, opened⟩, .number v =>
    match literal? v with
    | .ok _ => .ok ⟨false, opened⟩
    | .error fault => .error (.outOfRange fault)
  | ⟨true, opened⟩, .opening =>
    if limit ≤ opened then .error (.tooDeep position limit) else .ok ⟨true, opened + 1⟩
  | ⟨true, _⟩, t => .error (.unexpected t position)
  | ⟨false, opened⟩, .operator _ => .ok ⟨true, opened⟩
  | ⟨false, opened + 1⟩, .closing => .ok ⟨false, opened⟩
  | ⟨false, 0⟩, t => .error (.trailing t position)
  | ⟨false, _ + 1⟩, t => .error (.unclosed t position)

/-- The outlook after tokens of which the first has the given position. -/
def run (limit : Int) : (position : Nat) → Outlook → List Token → Except ParseFault Outlook
  | _, s, [] => .ok s
  | position, s, t :: ts =>
    match s.step limit position t with
    | .error fault => .error fault
    | .ok s => run limit (position + 1) s ts

/-- Whether the tokens may end here, in front of the given position. -/
def finish (position : Nat) : Outlook → Except ParseFault Unit
  | ⟨true, _⟩ => if position = 1 then .error .empty else .error .operandMissing
  | ⟨false, _ + 1⟩ => .error .closingMissing
  | ⟨false, 0⟩ => .ok ()

/-- The outcome of a pass over tokens of which the first has the given position. -/
def verdict (limit : Int) (position : Nat) (s : Outlook) (ts : List Token) :
    Except ParseFault Unit :=
  match s.run limit position ts with
  | .error fault => .error fault
  | .ok s => s.finish (position + ts.length)

variable {limit : Int} {position depth : Nat} {s s' : Outlook} {ts more : List Token}
  {fault : ParseFault}

theorem run_cons {t : Token} (h : s.step limit position t = .ok s') :
    s.run limit position (t :: ts) = s'.run limit (position + 1) ts := by
  rw [run, h]

theorem run_append (h : s.run limit position ts = .ok s') :
    s.run limit position (ts ++ more) = s'.run limit (position + ts.length) more := by
  induction ts generalizing position s with
  | nil =>
    cases h
    rfl
  | cons t ts ih =>
    rw [run] at h
    rw [List.cons_append, run]
    split at h
    · cases h
    · rw [List.length_cons, Nat.add_comm ts.length, ← Nat.add_assoc]
      exact ih h

theorem verdict_append (h : s.run limit position ts = .ok s') :
    s.verdict limit position (ts ++ more) = s'.verdict limit (position + ts.length) more := by
  rw [verdict, verdict, run_append h, List.length_append, Nat.add_assoc]

/-- A token that cannot come next decides the verdict. -/
theorem verdict_cons_error {t : Token} (h : s.step limit position t = .error fault) :
    s.verdict limit position (t :: ts) = .error fault := by
  rw [verdict, run, h]

theorem verdict_cons {t : Token} (h : s.step limit position t = .ok s') :
    s.verdict limit position (t :: ts) = s'.verdict limit (position + 1) ts := by
  rw [verdict, run_cons h, verdict, List.length_cons, Nat.add_comm ts.length, ← Nat.add_assoc]

end Outlook

open Outlook GrammarLemmas

/-! ## 2. The pass over a derived phrase -/

namespace OutlookLemmas

mutual

/-- A phrase satisfies the want of an operand, and leaves as many parentheses
open as there were. -/
theorem run_derivation {limit : Int} {depth position : Nat} {rule : Rule} :
    (d : Derivation rule) → Nests limit depth d.nesting →
      run limit position ⟨true, depth⟩ d.tokens = .ok ⟨false, depth⟩
  | .number value, _ => by
    rw [Derivation.tokens, run, step, literal?_eq_ok.mpr rfl]
    rfl
  | .group inner, hd => by
    obtain ⟨hdepth, hinner⟩ := nests_succ.mp hd
    have hstep : step limit position ⟨true, depth⟩ .opening = .ok ⟨true, depth + 1⟩ := if_neg hdepth
    rw [Derivation.tokens, List.cons_append, run_cons hstep]
    exact run_append (run_derivation inner hinner)
  | .chain _ first more, hd => by
    obtain ⟨hfirst, hmore⟩ := nests_max.mp hd
    rw [Derivation.tokens, run_append (run_derivation first hfirst)]
    exact run_repetition more hmore

theorem run_repetition {limit : Int} {depth position : Nat} {rule : Rule} :
    (more : Repetition rule) → Nests limit depth more.nesting →
      run limit position ⟨false, depth⟩ more.tokens = .ok ⟨false, depth⟩
  | .nil, _ => rfl
  | .cons op joins operand more, hd => by
    obtain ⟨hoperand, hmore⟩ := nests_max.mp hd
    have hstep : step limit position ⟨false, depth⟩ (.operator op) = .ok ⟨true, depth⟩ := rfl
    rw [Repetition.tokens, List.cons_append, run_cons hstep,
      run_append (run_derivation operand hoperand)]
    exact run_repetition more hmore

end

/-- After a phrase the pass goes on with the tokens behind it. -/
theorem verdict_of_read {limit : Int} {depth : Nat} (position : Nat) {rule : Rule}
    {ts rest : List Token} {tree : Expr} (h : rule.read limit depth ts = .ok (tree, rest)) :
    ∃ position', position' + rest.length = position + ts.length ∧
      verdict limit position ⟨true, depth⟩ ts = verdict limit position' ⟨false, depth⟩ rest := by
  obtain ⟨d, rfl, -, hd, -⟩ := read_sound h
  refine ⟨position + d.tokens.length, ?_, verdict_append (run_derivation d hd)⟩
  rw [List.length_append, Nat.add_assoc]

end OutlookLemmas

/-! ## 3. The pass agrees with reading -/

namespace OutlookLemmas

theorem not_stopsAt_operator {op : Operator} {rest : List Token} :
    ¬ Rule.expression.StopsAt (.operator op :: rest) := by
  intro h
  have hop := h op rest rfl
  revert hop
  cases op <;> decide

/-- The position of a token, from the number of tokens behind it. -/
theorem position_eq {all rest : List Token} {t : Token} {position : Nat}
    (hp : position + (t :: rest).length = all.length + 1) :
    all.length - rest.length = position := by
  rw [List.length_cons] at hp
  omega

variable {limit : Int} {depth position : Nat} {all ts : List Token}

theorem verdict_noOperand (hp : position + ts.length = all.length + 1) (h : NoOperand ts) :
    verdict limit position ⟨true, depth⟩ ts = .error ((Halt.operandWanted ts).fault limit all) := by
  cases ts with
  | nil =>
    have hempty : all.isEmpty = true ↔ position = 1 := by
      rw [List.isEmpty_iff_length_eq_zero]
      simp only [List.length_nil] at hp
      omega
    simp only [verdict, run, finish, Halt.fault, List.length_nil, Nat.add_zero, hempty]
    split <;> rfl
  | cons t rest =>
    simp only [Halt.fault, position_eq hp]
    cases t with
    | number v => exact absurd rfl (h.1 v rest)
    | opening => exact absurd rfl (h.2 rest)
    | operator op => exact verdict_cons_error rfl
    | closing => exact verdict_cons_error rfl

theorem verdict_unclosed (hp : position + ts.length = all.length + 1)
    (hstops : Rule.expression.StopsAt ts) (h : ∀ more, ts ≠ .closing :: more) :
    verdict limit position ⟨false, depth + 1⟩ ts =
      .error ((Halt.closingWanted ts).fault limit all) := by
  cases ts with
  | nil => rfl
  | cons t rest =>
    simp only [Halt.fault, position_eq hp]
    cases t with
    | number v => exact verdict_cons_error rfl
    | opening => exact verdict_cons_error rfl
    | operator op => exact absurd hstops not_stopsAt_operator
    | closing => exact absurd rfl (h rest)

theorem verdict_trailing {t : Token} (hp : position + (t :: ts).length = all.length + 1)
    (hstops : Rule.expression.StopsAt (t :: ts)) :
    verdict limit position ⟨false, 0⟩ (t :: ts) =
      .error (.trailing t (all.length - ts.length)) := by
  rw [position_eq hp]
  cases t with
  | number v => exact verdict_cons_error rfl
  | opening => exact verdict_cons_error rfl
  | operator op => exact absurd hstops not_stopsAt_operator
  | closing => exact verdict_cons_error rfl

mutual

/-- Where a rule stops reading, the pass stops with the same fault. -/
theorem verdict_of_read_error {limit : Int} {depth position : Nat} {rule : Rule}
    {all ts : List Token} {halt : Halt} (hp : position + ts.length = all.length + 1)
    (h : rule.read limit depth ts = .error halt) :
    verdict limit position ⟨true, depth⟩ ts = .error (halt.fault limit all) := by
  by_cases hrule : rule = .factor
  · subst hrule
    rcases operand_cases ts with ⟨v, more, rfl⟩ | ⟨more, hts⟩ | hno
    · rw [read_number] at h
      split at h
      · cases h
      · next fault hv =>
        cases h
        refine verdict_cons_error ?_
        rw [step, hv]
        rfl
    · have hlength : more.length < ts.length := by simp [hts]
      have hmore : position + 1 + more.length = all.length + 1 := by
        rw [← hp, hts, List.length_cons]
        omega
      rw [hts, read_opening] at h
      rw [hts] at hp ⊢
      split at h
      · next hdepth =>
        cases h
        simp only [Halt.fault, position_eq hp]
        exact verdict_cons_error (if_pos hdepth)
      · next hdepth =>
        have hstep : step limit position ⟨true, depth⟩ .opening = .ok ⟨true, depth + 1⟩ :=
          if_neg hdepth
        rw [verdict_cons hstep]
        split at h
        · next hinner =>
          cases h
          exact verdict_of_read_error hmore hinner
        · cases h
        · next inner after hafter hinner =>
          cases h
          obtain ⟨position', hp', hverdict⟩ := verdict_of_read (position + 1) hinner
          -- The phrase inside took all it could: no operator comes next.
          obtain ⟨d, -, -, -, hstops⟩ := read_sound hinner
          rw [hverdict]
          exact verdict_unclosed (hp'.trans hmore) hstops hafter
    · rw [read_noOperand hno] at h
      cases h
      exact verdict_noOperand hp hno
  · have hrank := rank_operand hrule
    rw [read_chain hrule] at h
    split at h
    · next hfirst =>
      cases h
      exact verdict_of_read_error hp hfirst
    · next first mid hfirst =>
      have hlength := length_read hfirst
      obtain ⟨position', hp', hverdict⟩ := verdict_of_read position hfirst
      rw [hverdict]
      exact verdict_of_extend_error (hp'.trans hp) h
termination_by (ts.length, rule.rank + 1)
decreasing_by
  · exact Prod.Lex.left _ _ hlength
  · exact Prod.Lex.right _ (Nat.succ_lt_succ hrank)
  · exact Prod.Lex.left _ _ hlength

theorem verdict_of_extend_error {limit : Int} {depth position : Nat} {rule : Rule}
    {all ts : List Token} {left : Expr} {halt : Halt} (hp : position + ts.length = all.length + 1)
    (h : rule.extend limit depth left ts = .error halt) :
    verdict limit position ⟨false, depth⟩ ts = .error (halt.fault limit all) := by
  by_cases hop : ∃ op more, ts = .operator op :: more ∧ op ∈ rule.operators
  · obtain ⟨op, more, hts, hmem⟩ := hop
    have hmore : more.length < ts.length := by simp [hts]
    have hp' : position + 1 + more.length = all.length + 1 := by
      rw [← hp, hts, List.length_cons]
      omega
    rw [hts, extend_operator hmem] at h
    have hstep : step limit position ⟨false, depth⟩ (.operator op) = .ok ⟨true, depth⟩ := rfl
    rw [hts, verdict_cons hstep]
    split at h
    · next hright =>
      cases h
      exact verdict_of_read_error hp' hright
    · next right mid hright =>
      have hmid := Nat.lt_trans (length_read hright) hmore
      obtain ⟨position', hp'', hverdict⟩ := verdict_of_read (position + 1) hright
      rw [hverdict]
      exact verdict_of_extend_error (hp''.trans hp') h
  · rw [extend_stop fun op more heq hmem => hop ⟨op, more, heq, hmem⟩] at h
    cases h
termination_by (ts.length, 0)
decreasing_by
  · exact Prod.Lex.left _ _ hmore
  · exact Prod.Lex.left _ _ hmid

end

end OutlookLemmas

open OutlookLemmas

/-- The pass over all of the tokens accepts exactly those that form an
expression, and finds the same fault with the others. -/
theorem verdict_ofTokens (limit : Int) (ts : List Token) :
    verdict limit 1 ⟨true, 0⟩ ts = (Expr.ofTokens limit ts).map fun _ => () := by
  have hp : 1 + ts.length = ts.length + 1 := Nat.add_comm 1 ts.length
  rw [ofTokens_eq_read]
  split
  · next halt hread => exact verdict_of_read_error hp hread
  · next tree hread =>
    obtain ⟨position, -, hverdict⟩ := verdict_of_read 1 hread
    exact hverdict
  · next tree t rest hread =>
    obtain ⟨position, hp', hverdict⟩ := verdict_of_read 1 hread
    obtain ⟨d, -, -, -, hstops⟩ := read_sound hread
    rw [hverdict]
    exact verdict_trailing (hp'.trans hp) hstops

/-! ## 4. Faults are named at the first hopeless token -/

/-- Every number among the tokens is one that 64 bits hold. -/
def NumbersInRange (ts : List Token) : Prop :=
  ∀ v, Token.number v ∈ ts → InRange v

/-- Tokens that lead from an outlook to an accepted end: an operand if one is
wanted, and what closes the open parentheses. -/
def Outlook.completion (s : Outlook) : List Token :=
  (if s.wanted then [.number 0] else []) ++ List.replicate s.opened .closing

namespace OutlookLemmas

theorem exists_ofTokens_eq_ok {limit : Int} {ts : List Token} :
    (∃ tree, Expr.ofTokens limit ts = .ok tree) ↔ verdict limit 1 ⟨true, 0⟩ ts = .ok () := by
  rw [verdict_ofTokens]
  cases Expr.ofTokens limit ts with
  | error fault => exact ⟨nofun, nofun⟩
  | ok tree => exact ⟨fun _ => rfl, fun _ => ⟨tree, rfl⟩⟩

theorem ofTokens_eq_error {limit : Int} {ts : List Token} {fault : ParseFault} :
    Expr.ofTokens limit ts = .error fault ↔ verdict limit 1 ⟨true, 0⟩ ts = .error fault := by
  rw [verdict_ofTokens]
  cases Expr.ofTokens limit ts with
  | error stop => exact ⟨fun h => congrArg _ h, fun h => by cases h; rfl⟩
  | ok tree => exact ⟨nofun, nofun⟩

theorem verdict_closings {limit : Int} {position : Nat} (opened : Nat) :
    verdict limit position ⟨false, opened⟩ (List.replicate opened .closing) = .ok () := by
  induction opened generalizing position with
  | zero => rfl
  | succ opened ih =>
    have hstep : step limit position ⟨false, opened + 1⟩ .closing = .ok ⟨false, opened⟩ := rfl
    rw [List.replicate_succ, verdict_cons hstep]
    exact ih

/-- No outlook is hopeless. The completion opens no parenthesis, so the limit
does not matter. -/
theorem verdict_completion {limit : Int} {position : Nat} (s : Outlook) :
    verdict limit position s s.completion = .ok () := by
  obtain ⟨wanted, opened⟩ := s
  cases wanted with
  | false => exact verdict_closings opened
  | true =>
    have hstep : step limit position ⟨true, opened⟩ (.number 0) = .ok ⟨false, opened⟩ := rfl
    rw [completion, if_pos rfl, List.singleton_append, verdict_cons hstep]
    exact verdict_closings opened

/-- A pass that stops has read some tokens, and stops at the one behind them. -/
theorem run_eq_error {limit : Int} {position : Nat} {s : Outlook} {ts : List Token}
    {fault : ParseFault} (h : s.run limit position ts = .error fault) :
    ∃ before t after s', ts = before ++ t :: after ∧ s.run limit position before = .ok s' ∧
      s'.step limit (position + before.length) t = .error fault := by
  induction ts generalizing position s with
  | nil => cases h
  | cons t ts ih =>
    rw [run] at h
    split at h
    · next hstep =>
      cases h
      exact ⟨[], t, ts, s, rfl, rfl, hstep⟩
    · next s₁ hstep =>
      obtain ⟨before, u, after, s', rfl, hrun, herror⟩ := ih h
      refine ⟨t :: before, u, after, s', rfl, (run_cons hstep).trans hrun, ?_⟩
      rwa [List.length_cons, Nat.add_comm before.length, ← Nat.add_assoc]

theorem position_of_step_error {limit : Int} {position : Nat} {s : Outlook} {t : Token}
    {fault : ParseFault} (ht : ∀ v, t = .number v → InRange v)
    (h : s.step limit position t = .error fault) : fault.position? = some position := by
  unfold step at h
  split at h
  · next opened v =>
    obtain ⟨w, hw⟩ := exists_literal?_eq_ok.mpr (ht v rfl)
    rw [hw] at h
    cases h
  · split at h
    · cases h
      rfl
    · cases h
  · cases h
    rfl
  · cases h
  · cases h
  · cases h
    rfl
  · cases h
    rfl

theorem position_of_finish_error {position : Nat} {s : Outlook} {fault : ParseFault}
    (h : s.finish position = .error fault) : fault.position? = none := by
  unfold finish at h
  split at h
  · split at h <;> cases h <;> rfl
  · cases h
    rfl
  · cases h

end OutlookLemmas

/-- A fault with a position is named as early as it can be: some expression
begins with the tokens before that position, and none begins with the tokens up
to it. A fault without a position is named at the end of tokens with which some
expression begins. -/
theorem ofTokens_fault_earliest {limit : Int} {ts : List Token} {fault : ParseFault}
    (hts : NumbersInRange ts) (h : Expr.ofTokens limit ts = .error fault) :
    (∀ position, fault.position? = some position →
      1 ≤ position ∧ position ≤ ts.length ∧
      (∃ more tree, Expr.ofTokens limit (ts.take (position - 1) ++ more) = .ok tree) ∧
      ∀ more tree, Expr.ofTokens limit (ts.take position ++ more) ≠ .ok tree) ∧
    (fault.position? = none → ∃ more tree, Expr.ofTokens limit (ts ++ more) = .ok tree) := by
  have hverdict : verdict limit 1 ⟨true, 0⟩ ts = .error fault := by
    rw [verdict_ofTokens, h]
    rfl
  rw [verdict] at hverdict
  split at hverdict
  · -- The pass stops at a token: the outlook before it can be completed.
    next stop hrun =>
    cases hverdict
    obtain ⟨before, t, after, s, rfl, hbefore, hstep⟩ := run_eq_error hrun
    have hposition : fault.position? = some (1 + before.length) :=
      position_of_step_error (fun v hv => hts v (by simp [hv])) hstep
    refine ⟨fun position hp => ?_, fun hp => ?_⟩
    · obtain rfl : 1 + before.length = position := Option.some.inj (hposition.symm.trans hp)
      have htake : (before ++ t :: after).take (1 + before.length) = before ++ [t] := by
        rw [List.append_cons, Nat.add_comm]
        exact List.take_left' (by simp)
      refine ⟨Nat.le_add_right 1 _, by simp; omega, ?_, ?_⟩
      · refine ⟨s.completion, exists_ofTokens_eq_ok.mpr ?_⟩
        rw [Nat.add_sub_cancel_left, List.take_left, verdict_append hbefore]
        exact verdict_completion s
      · intro more tree hok
        have haccept := exists_ofTokens_eq_ok.mp ⟨tree, hok⟩
        rw [htake, List.append_assoc, verdict_append hbefore] at haccept
        rw [List.singleton_append, verdict_cons_error hstep] at haccept
        cases haccept
    · rw [hposition] at hp
      cases hp
  · -- The pass reaches the end: the outlook there can be completed.
    next s hrun =>
    have hposition := position_of_finish_error hverdict
    refine ⟨fun position hp => ?_, fun _ => ?_⟩
    · rw [hposition] at hp
      cases hp
    · refine ⟨s.completion, exists_ofTokens_eq_ok.mpr ?_⟩
      rw [verdict_append hrun]
      exact verdict_completion s

/-- Under the limit 1 the tokens `( 1 + (` fail at the second parenthesis:
expressions begin with the three tokens before it, none with all four. -/
theorem ofTokens_fault_earliest_nested :
    NumbersInRange [.opening, .number 1, .operator .add, .opening] ∧
    Expr.ofTokens 1 [.opening, .number 1, .operator .add, .opening] = .error (.tooDeep 4 1) ∧
    (∃ more tree, Expr.ofTokens 1 ([.opening, .number 1, .operator .add] ++ more) = .ok tree) ∧
    ∀ more tree,
      Expr.ofTokens 1 ([.opening, .number 1, .operator .add, .opening] ++ more) ≠ .ok tree := by
  have hrange : NumbersInRange [.opening, .number 1, .operator .add, .opening] := by
    intro v hv
    simp only [List.mem_cons, List.not_mem_nil, reduceCtorEq, Token.number.injEq, false_or,
      or_false] at hv
    subst hv
    decide
  have herror :
      Expr.ofTokens 1 [.opening, .number 1, .operator .add, .opening] = .error (.tooDeep 4 1) :=
    ofTokens_eq_error.mpr rfl
  obtain ⟨-, -, hbegin, hnone⟩ := (ofTokens_fault_earliest hrange herror).1 4 rfl
  exact ⟨hrange, herror, hbegin, hnone⟩

end Abacus
