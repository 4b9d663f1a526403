import Abacus.Proofs.Outlook

/-!
# The limit on nesting

Tokens that the grammar derives can be refused for one reason only, which is that their
parentheses nest deeper than the limit allows. Whatever the tokens, the limit matters only
where a parenthesis is opened, so two limits part ways at such a place or not at all.

Results:
1. `run_derivation_tooDeep`: the pass over a derived phrase whose parentheses exceed the
   limit stops at a parenthesis that is one too many.
2. `ofTokens_derivation`: derived tokens are read as the expression they denote up to
   the limit, and refused as nested too deeply beyond it.
3. `ofTokens_of_le`: what is read under one limit is read alike under every greater one.
4. `run_of_le`: a greater limit makes no difference to the pass unless the lower one stops
   it at a parenthesis.
5. `ofTokens_two_limits`: so a greater limit makes a difference only to tokens that are
   nested too deeply for the lower one, and it leads past the parenthesis at fault.
-/

namespace Abacus

open Outlook GrammarLemmas OutlookLemmas

namespace NestingLemmas

theorem run_append_error {limit : Int} {position : Nat} {s : Outlook} {ts : List Token}
    {fault : ParseFault} (h : s.run limit position ts = .error fault) (more : List Token) :
    s.run limit position (ts ++ more) = .error fault := by
  induction ts generalizing position s with
  | nil => cases h
  | cons t ts ih =>
    rw [run] at h
    rw [List.cons_append, run]
    cases hstep : s.step limit position t with
    | error stop =>
      rw [hstep] at h
      exact h
    | ok s' =>
      rw [hstep] at h
      exact ih h

end NestingLemmas

open NestingLemmas

/-! ## 1. Beyond the limit -/

mutual

/-- The pass over a phrase stops at a parenthesis that is nested too deeply, if there is
one. -/
theorem run_derivation_tooDeep {limit : Int} {depth position : Nat} {rule : Rule} :
    (d : Derivation rule) → ¬ Nests limit depth d.nesting →
      ∃ stop, run limit position ⟨true, depth⟩ d.tokens = .error (.tooDeep stop limit)
  | .number _, hd => absurd (.inl rfl) hd
  | .group inner, hd => by
    by_cases hdepth : limit ≤ depth
    · refine ⟨position, ?_⟩
      have hstep : step limit position ⟨true, depth⟩ .opening = .error (.tooDeep position limit) :=
        if_pos hdepth
      rw [Derivation.tokens, List.cons_append, run, hstep]
    · have hstep : step limit position ⟨true, depth⟩ .opening = .ok ⟨true, depth + 1⟩ :=
        if_neg hdepth
      have hinner : ¬ Nests limit (depth + 1) inner.nesting :=
        fun hinner => hd (nests_succ.mpr ⟨hdepth, hinner⟩)
      obtain ⟨stop, hstop⟩ := run_derivation_tooDeep inner hinner
      refine ⟨stop, ?_⟩
      rw [Derivation.tokens, List.cons_append, run_cons hstep]
      exact run_append_error hstop [.closing]
  | .chain _ first more, hd => by
    rw [Derivation.tokens]
    by_cases hfirst : Nests limit depth first.nesting
    · have hmore : ¬ Nests limit depth more.nesting :=
        fun hmore => hd (nests_max.mpr ⟨hfirst, hmore⟩)
      rw [run_append (run_derivation first hfirst)]
      exact run_repetition_tooDeep more hmore
    · obtain ⟨stop, hstop⟩ := run_derivation_tooDeep first hfirst
      exact ⟨stop, run_append_error hstop more.tokens⟩

theorem run_repetition_tooDeep {limit : Int} {depth position : Nat} {rule : Rule} :
    (more : Repetition rule) → ¬ Nests limit depth more.nesting →
      ∃ stop, run limit position ⟨false, depth⟩ more.tokens = .error (.tooDeep stop limit)
  | .nil, hd => absurd (.inl rfl) hd
  | .cons op _ operand more, hd => by
    have hstep : step limit position ⟨false, depth⟩ (.operator op) = .ok ⟨true, depth⟩ := rfl
    rw [Repetition.tokens, List.cons_append, run_cons hstep]
    by_cases hoperand : Nests limit depth operand.nesting
    · have hmore : ¬ Nests limit depth more.nesting :=
        fun hmore => hd (nests_max.mpr ⟨hoperand, hmore⟩)
      rw [run_append (run_derivation operand hoperand)]
      exact run_repetition_tooDeep more hmore
    · obtain ⟨stop, hstop⟩ := run_derivation_tooDeep operand hoperand
      exact ⟨stop, run_append_error hstop more.tokens⟩

end

/-- Derived tokens are read as the expression they denote when their parentheses nest
within the limit, and are refused as nested too deeply when they do not. -/
theorem ofTokens_derivation (limit : Int) (d : Derivation .expression) :
    ((d.nesting : Int) ≤ max limit 0 → Expr.ofTokens limit d.tokens = .ok d.tree) ∧
    (max limit 0 < (d.nesting : Int) →
      ∃ position, Expr.ofTokens limit d.tokens = .error (.tooDeep position limit)) := by
  constructor
  · intro hd
    exact ofTokens_eq_ok.mpr ⟨d, rfl, rfl, hd⟩
  · intro hd
    have hdeep : ¬ Nests limit 0 d.nesting := fun hnests => by
      have := nests_zero.mp hnests
      omega
    obtain ⟨position, hstop⟩ : ∃ position,
        run limit 1 ⟨true, 0⟩ d.tokens = .error (.tooDeep position limit) :=
      run_derivation_tooDeep d hdeep
    refine ⟨position, ofTokens_eq_error.mpr ?_⟩
    rw [verdict, hstop]

/-- What is read under one limit is read alike under every greater one. -/
theorem ofTokens_of_le {limit limit' : Int} {ts : List Token} {e : Expr} (hle : limit ≤ limit')
    (h : Expr.ofTokens limit ts = .ok e) : Expr.ofTokens limit' ts = .ok e := by
  obtain ⟨d, htokens, htree, hnesting⟩ := ofTokens_eq_ok.mp h
  exact ofTokens_eq_ok.mpr ⟨d, htokens, htree, by omega⟩

/-! ## 2. Two limits -/

/-- How many parentheses are open behind a token, when so many are open in front of it. -/
def Token.opensAfter (opened : Nat) : Token → Nat
  | .opening => opened + 1
  | .closing => opened - 1
  | .number _ | .operator _ => opened

/-- How many parentheses are opened among tokens and not closed again. -/
def unmatched (ts : List Token) : Nat := ts.foldl Token.opensAfter 0

/-- The tokens end too early. -/
def ParseFault.AtEnd (fault : ParseFault) : Prop :=
  fault = .empty ∨ fault = .operandMissing ∨ fault = .closingMissing

namespace NestingLemmas

variable {limit limit' bound : Int} {position stop : Nat} {s s' : Outlook} {t : Token}
  {ts : List Token} {fault : ParseFault}

theorem step_eq_tooDeep (h : s.step limit position t = .error (.tooDeep stop bound)) :
    t = .opening ∧ s.wanted = true ∧ limit ≤ s.opened ∧ stop = position ∧ bound = limit := by
  rcases s with ⟨_ | _, opened⟩
  · cases t <;> rcases opened with _ | opened <;> cases h
  · cases t with
    | number v =>
      rw [step] at h
      cases hv : literal? v <;> rw [hv] at h <;> cases h
    | operator op => cases h
    | closing => cases h
    | opening =>
      rw [step] at h
      split at h
      · next hdepth =>
        cases h
        exact ⟨rfl, rfl, hdepth, rfl, rfl⟩
      · cases h

/-- Only a parenthesis that is opened asks for the limit. -/
theorem step_of_le (hle : limit ≤ limit')
    (h : ∀ stop bound, s.step limit position t ≠ .error (.tooDeep stop bound)) :
    s.step limit' position t = s.step limit position t := by
  by_cases hopening : s.wanted = true ∧ t = .opening
  · obtain ⟨wanted, opened⟩ := s
    obtain ⟨rfl, rfl⟩ := hopening
    have hdepth : ¬ limit ≤ opened := fun hdepth => h position limit (if_pos hdepth)
    have hdepth' : ¬ limit' ≤ opened := fun hdepth' => hdepth (Int.le_trans hle hdepth')
    rw [step, step, if_neg hdepth, if_neg hdepth']
  · rcases s with ⟨_ | _, opened⟩
    · rcases opened with _ | opened <;> cases t <;> rfl
    · cases t with
      | number v | operator op | closing => rfl
      | opening => exact absurd ⟨rfl, rfl⟩ hopening

/-- A step keeps count of the open parentheses, and opens no more than the limit allows. -/
theorem opened_of_step (h : s.step limit position t = .ok s') :
    s'.opened = t.opensAfter s.opened ∧
      ((s.opened : Int) ≤ max limit 0 → (s'.opened : Int) ≤ max limit 0) := by
  unfold step at h
  split at h
  · split at h <;> cases h
    exact ⟨rfl, id⟩
  · split at h <;> cases h
    exact ⟨rfl, fun _ => by dsimp only; omega⟩
  · cases h
  · cases h
    exact ⟨rfl, id⟩
  · cases h
    exact ⟨rfl, fun hs => by dsimp only at hs ⊢; omega⟩
  · cases h
  · cases h

/-- And so does a whole pass. -/
theorem opened_of_run (h : s.run limit position ts = .ok s') :
    s'.opened = ts.foldl Token.opensAfter s.opened ∧
      ((s.opened : Int) ≤ max limit 0 → (s'.opened : Int) ≤ max limit 0) := by
  induction ts generalizing position s with
  | nil =>
    cases h
    exact ⟨rfl, id⟩
  | cons t ts ih =>
    rw [run] at h
    split at h
    · cases h
    · next s₁ hstep =>
      obtain ⟨hcount, hbound⟩ := opened_of_step hstep
      obtain ⟨hcount', hbound'⟩ := ih h
      rw [List.foldl_cons, ← hcount]
      exact ⟨hcount', fun hs => hbound' (hbound hs)⟩

theorem atEnd_of_finish_error (h : s.finish position = .error fault) : fault.AtEnd := by
  unfold finish at h
  split at h
  · split at h <;> cases h
    · exact .inl rfl
    · exact .inr (.inl rfl)
  · cases h
    exact .inr (.inr rfl)
  · cases h

/-- A pass is at fault at the end of the tokens, or at one of them. -/
theorem position_of_verdict_error (hts : NumbersInRange ts)
    (h : s.verdict limit position ts = .error fault) :
    fault.AtEnd ∨ ∃ stop, fault.position? = some stop ∧ position ≤ stop := by
  rw [verdict] at h
  split at h
  · next hrun =>
    cases h
    obtain ⟨before, t, after, s', rfl, -, hstep⟩ := run_eq_error hrun
    have hstop := position_of_step_error (fun v hv => hts v (by simp [hv])) hstep
    exact .inr ⟨_, hstop, Nat.le_add_right position _⟩
  · exact .inl (atEnd_of_finish_error h)

end NestingLemmas

/-- A pass that the lower limit does not stop at a parenthesis ends alike under the greater
one. -/
theorem run_of_le {limit limit' : Int} {position : Nat} {s : Outlook} {ts : List Token}
    (hle : limit ≤ limit')
    (h : ∀ stop bound, s.run limit position ts ≠ .error (.tooDeep stop bound)) :
    s.run limit' position ts = s.run limit position ts := by
  induction ts generalizing position s with
  | nil => rfl
  | cons t ts ih =>
    have hstep : s.step limit' position t = s.step limit position t := by
      refine step_of_le hle fun stop bound hstop => h stop bound ?_
      rw [run, hstop]
    rw [run, run, hstep]
    cases hnext : s.step limit position t with
    | error fault => rfl
    | ok s' =>
      refine ih fun stop bound hstop => h stop bound ?_
      rw [run_cons hnext, hstop]

namespace NestingLemmas

/-- Where tokens are nested too deeply the pass stands in front of a parenthesis, and as many
are open as the limit allows. -/
theorem exists_run_of_tooDeep {limit bound : Int} {position : Nat} {ts : List Token}
    (h : Expr.ofTokens limit ts = .error (.tooDeep position bound)) :
    ∃ before after opened, ts = before ++ .opening :: after ∧ position = before.length + 1 ∧
      run limit 1 ⟨true, 0⟩ before = .ok ⟨true, opened⟩ ∧ (opened : Int) = max limit 0 := by
  have hverdict : verdict limit 1 ⟨true, 0⟩ ts = .error (.tooDeep position bound) :=
    ofTokens_eq_error.mp h
  rw [verdict] at hverdict
  split at hverdict
  · next hrun =>
    cases hverdict
    obtain ⟨before, t, after, s, rfl, hbefore, hstep⟩ := run_eq_error hrun
    obtain ⟨rfl, hwanted, hdepth, rfl, -⟩ := step_eq_tooDeep hstep
    obtain ⟨wanted, opened⟩ := s
    obtain rfl : wanted = true := hwanted
    have hopened : (opened : Int) ≤ max limit 0 :=
      (opened_of_run hbefore).2 (Int.le_max_right _ _)
    have hlimit : limit ≤ opened := hdepth
    exact ⟨before, after, opened, rfl, Nat.add_comm _ _, hbefore, by omega⟩
  · rcases atEnd_of_finish_error hverdict with h | h | h <;> cases h

/-- Where a parenthesis may be opened the pass goes on behind it, so whatever is at fault is at
fault behind it. -/
theorem past_of_lt {limit : Int} {before after : List Token} {opened : Nat}
    (hafter : NumbersInRange after)
    (hbefore : run limit 1 ⟨true, 0⟩ before = .ok ⟨true, opened⟩)
    (hlimit : (opened : Int) < limit) :
    (∃ tree, Expr.ofTokens limit (before ++ .opening :: after) = .ok tree) ∨
      ∃ fault, Expr.ofTokens limit (before ++ .opening :: after) = .error fault ∧
        (fault.AtEnd ∨ ∃ stop, fault.position? = some stop ∧ before.length + 1 < stop) := by
  have hstep : step limit (1 + before.length) ⟨true, opened⟩ .opening = .ok ⟨true, opened + 1⟩ :=
    if_neg (Int.not_le.mpr hlimit)
  have hverdict : verdict limit 1 ⟨true, 0⟩ (before ++ .opening :: after) =
      verdict limit (1 + before.length + 1) ⟨true, opened + 1⟩ after := by
    rw [verdict_append hbefore, verdict_cons hstep]
  rw [exists_ofTokens_eq_ok]
  cases hrest : verdict limit 1 ⟨true, 0⟩ (before ++ .opening :: after) with
  | ok _ => exact .inl rfl
  | error fault =>
    refine .inr ⟨fault, ofTokens_eq_error.mpr hrest, ?_⟩
    rw [hverdict] at hrest
    rcases position_of_verdict_error hafter hrest with hend | ⟨stop, hstop, hle⟩
    · exact .inl hend
    · exact .inr ⟨stop, hstop, by omega⟩

end NestingLemmas

/-- What a greater limit changes. What is read stays as it is, and so does every fault but
that of nesting too deeply. Tokens that are nested too deeply are at fault at a parenthesis
with as many others open in front of it as the lower limit allows, and under a limit that
allows for more, reading gets past that parenthesis. -/
theorem ofTokens_two_limits {limit limit' : Int} {ts : List Token} (hts : NumbersInRange ts)
    (hle : limit ≤ limit') :
    (∀ tree, Expr.ofTokens limit ts = .ok tree → Expr.ofTokens limit' ts = .ok tree) ∧
    (∀ fault, Expr.ofTokens limit ts = .error fault →
      (∀ position bound, fault ≠ .tooDeep position bound) →
        Expr.ofTokens limit' ts = .error fault) ∧
    ∀ position bound, Expr.ofTokens limit ts = .error (.tooDeep position bound) →
      1 ≤ position ∧ ts[position - 1]? = some .opening ∧
      (unmatched (ts.take (position - 1)) : Int) = max limit 0 ∧
      (max limit 0 < limit' →
        (∃ tree, Expr.ofTokens limit' ts = .ok tree) ∨
        ∃ fault, Expr.ofTokens limit' ts = .error fault ∧
          (fault.AtEnd ∨ ∃ stop, fault.position? = some stop ∧ position < stop)) := by
  refine ⟨fun tree => ofTokens_of_le hle, fun fault hfault hdeep => ?_,
    fun position bound hdeep => ?_⟩
  · have hverdict : verdict limit 1 ⟨true, 0⟩ ts = .error fault := ofTokens_eq_error.mp hfault
    have hrun : run limit' 1 ⟨true, 0⟩ ts = run limit 1 ⟨true, 0⟩ ts := by
      refine run_of_le hle fun position bound hstop => hdeep position bound ?_
      rw [verdict, hstop] at hverdict
      exact (Except.error.inj hverdict).symm
    rw [ofTokens_eq_error, verdict, hrun]
    exact hverdict
  · obtain ⟨before, after, opened, rfl, rfl, hbefore, hopened⟩ := exists_run_of_tooDeep hdeep
    have hunmatched : opened = unmatched before := (opened_of_run hbefore).1
    refine ⟨Nat.le_add_left 1 _, ?_, ?_, fun hlimit => ?_⟩
    · simp
    · rw [Nat.add_sub_cancel, List.take_left, ← hunmatched, hopened]
    · -- The pass ends alike in front of the parenthesis, which the greater limit allows for.
      have hrun : run limit' 1 ⟨true, 0⟩ before = .ok ⟨true, opened⟩ := by
        rw [← hbefore]
        refine run_of_le hle fun _ _ hstop => ?_
        rw [hbefore] at hstop
        cases hstop
      have hafter : NumbersInRange after := fun v hv => hts v (by simp [hv])
      exact past_of_lt hafter hrun (hopened ▸ hlimit)

/-- The tokens `( ( 1 ) ) )` are nested too deeply for the limit 1 at the second parenthesis,
with one open in front of it. Under the limit 2 reading gets past it. -/
theorem ofTokens_two_limits_trailing :
    NumbersInRange [.opening, .opening, .number 1, .closing, .closing, .closing] ∧
    Expr.ofTokens 1 [.opening, .opening, .number 1, .closing, .closing, .closing] =
      .error (.tooDeep 2 1) ∧
    (unmatched [.opening] : Int) = max 1 0 ∧
    ((∃ tree, Expr.ofTokens 2 [.opening, .opening, .number 1, .closing, .closing, .closing] =
        .ok tree) ∨
      ∃ fault, Expr.ofTokens 2 [.opening, .opening, .number 1, .closing, .closing, .closing] =
        .error fault ∧ (fault.AtEnd ∨ ∃ stop, fault.position? = some stop ∧ 2 < stop)) := by
  have hts : NumbersInRange [.opening, .opening, .number 1, .closing, .closing, .closing] := by
    intro v hv
    simp only [List.mem_cons, List.not_mem_nil, reduceCtorEq, Token.number.injEq, false_or,
      or_false] at hv
    subst hv
    decide
  have hdeep : Expr.ofTokens 1 [.opening, .opening, .number 1, .closing, .closing, .closing] =
      .error (.tooDeep 2 1) :=
    ofTokens_eq_error.mpr rfl
  have hlimits : (1 : Int) ≤ 2 := by decide
  obtain ⟨-, -, hopened, hpast⟩ := (ofTokens_two_limits hts hlimits).2.2 2 1 hdeep
  exact ⟨hts, hdeep, hopened, hpast (by decide)⟩

end Abacus
