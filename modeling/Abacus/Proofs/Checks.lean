import Abacus.Proofs.Cursor
import Abacus.Proofs.Outlook
import Abacus.Proofs.Scanning
import Abacus.Proofs.Stages

/-!
# Nothing else goes wrong

A calculation relies on operations that have no result on some arguments: digits are valued,
tokens are built, the token at a position is taken, a leaf is made of a number, values are
taken off a stack, a number is put into words. Here every stage checks what it relies on at the
place where it relies on it, and ends with a breach where the check fails. Reading by position
has its checks already, and so has evaluation, for which a stack that runs short, a node that is
no expression, an operator that is none of the four and an operand that is too long to be
written are faults of its own. All checks are shown to be idle, but for one: a limit that is too
long to be written cannot be told when parentheses exceed it.

Results:
1. `scanCheckedFrom_eq`: scanning values nothing but digits, never more than there are in the
   largest number, and builds tokens only of a kind and a number that belong together.
2. `numbersInRange_scan`, `ofTokens_ne_outOfRange`: every number of a line becomes a leaf.
3. `ofTokens_stop`: a fault of tokens in range can be told, if the limit can.
4. `traceChecked_eq`: a calculation that checks everything ends like one that checks nothing,
   up to the faults that are none of the line or have no words.
5. `calculation_ends`: every line ends with a value in range or with a fault of its text, of the
   order of its tokens, or of its arithmetic, unless a limit that is too long is exceeded.
   `not_settles_unwritable` is such a limit.
-/

namespace Abacus

/-! ## 1. Scanning with checks -/

namespace Numeral

/-- The number that characters denote, if they are digits and not too many. -/
def valueChecked? (ds : List Char) : Option Nat :=
  if ds ≠ [] ∧ ds.all isDigit ∧ ds.length ≤ maxLength then some (value ds) else none

end Numeral

namespace Token

/-- The token of a kind and an optional number, which have to belong together. -/
def ofKindChecked (kind : Kind) (value : Option Int) : Except (Stop ScanFault) Token :=
  match ofKind kind value with
  | .error fault => .error (.breach (.unsuitable fault))
  | .ok t => .ok t

/-- The number token of digits with no zero in front. Digits that are too many for a number
in range are not valued. -/
def ofDigitsChecked (index : Nat) (ds : List Char) : Except (Stop ScanFault) Token :=
  if maxDigits < ds.length then .error (.fault ⟨.tooLarge, index⟩)
  else
    match Numeral.valueChecked? ds with
    | none => .error (.breach .numeral)
    | some n =>
      if maxValue < n then .error (.fault ⟨.tooLarge, index⟩) else ofKindChecked .number (some n)

/-- The tokens of a text whose first character has the given index. -/
def scanCheckedFrom (index : Nat) : List Char → Except (Stop ScanFault) (List Token)
  | [] => .ok []
  | c :: cs =>
    if Text.isBlank c then scanCheckedFrom (index + 1) cs
    else if Numeral.isDigit c then
      let run := c :: cs.takeWhile Numeral.isDigit
      match ofDigitsChecked index (Numeral.significant run) with
      | .error stop => .error stop
      | .ok t =>
        (t :: ·) <$> scanCheckedFrom (index + run.length) (cs.dropWhile Numeral.isDigit)
    else
      match (ofChar? c).map kind with
      | none => .error (.fault ⟨.invalid c, index⟩)
      | some kind =>
        match ofKindChecked kind none with
        | .error stop => .error stop
        | .ok t => (t :: ·) <$> scanCheckedFrom (index + 1) cs
termination_by cs => cs.length
decreasing_by
  · simp
  · have := (List.dropWhile_suffix (l := cs) Numeral.isDigit).length_le
    simp only [List.length_cons]
    omega
  · simp

def scanChecked (line : String) : Except (Stop ScanFault) (List Token) :=
  scanCheckedFrom 1 line.toList

namespace CheckLemmas

open ScanningLemmas

variable {run : List Char} {index : Nat}

/-- The digits of a run that are valued are digits, and there is one at least. -/
theorem significant_digits (h : ∀ c ∈ run, Numeral.isDigit c = true) :
    Numeral.significant run ≠ [] ∧ (Numeral.significant run).all Numeral.isDigit = true := by
  rw [Numeral.significant]
  cases hrest : run.dropWhile (· == '0') with
  | nil => exact ⟨List.cons_ne_nil _ _, by decide⟩
  | cons d ds =>
    have hsub := (List.dropWhile_suffix (l := run) (· == '0')).subset
    rw [hrest] at hsub
    exact ⟨List.cons_ne_nil _ _, List.all_eq_true.mpr fun c hc => h c (hsub hc)⟩

/-- What is valued are digits, at least one and not too many. -/
theorem valueChecked?_significant (h : ∀ c ∈ run, Numeral.isDigit c = true)
    (hlength : (Numeral.significant run).length ≤ maxDigits) :
    Numeral.valueChecked? (Numeral.significant run) =
      some (Numeral.value (Numeral.significant run)) := by
  obtain ⟨hne, hdigits⟩ := significant_digits h
  have hmax : maxDigits ≤ Numeral.maxLength := by
    rw [maxDigits_eq]
    decide
  exact if_pos ⟨hne, hdigits, Nat.le_trans hlength hmax⟩

theorem ofKindChecked_kind (t : Token) : ofKindChecked t.kind t.value? = .ok t := by
  rw [ofKindChecked, ofKind_kind]

theorem ofDigitsChecked_significant (h : ∀ c ∈ run, Numeral.isDigit c = true) :
    ofDigitsChecked index (Numeral.significant run) =
      if exceedsMax (Numeral.significant run) then .error (.fault ⟨.tooLarge, index⟩)
      else .ok (.number (Numeral.value (Numeral.significant run))) := by
  have hvalue := valueChecked?_significant h
  generalize Numeral.significant run = ds at hvalue ⊢
  by_cases hlong : maxDigits < ds.length
  · have hexceeds : exceedsMax ds = true := by simp [exceedsMax, hlong]
    rw [ofDigitsChecked, if_pos hlong, if_pos hexceeds]
  · rw [ofDigitsChecked, if_neg hlong, hvalue (Nat.le_of_not_lt hlong)]
    by_cases hlarge : maxValue < Numeral.value ds
    · have hexceeds : exceedsMax ds = true := by simp [exceedsMax, hlarge]
      rw [if_pos hexceeds]
      exact if_pos hlarge
    · have hexceeds : ¬ exceedsMax ds = true := by simp [exceedsMax, hlong, hlarge]
      rw [if_neg hexceeds]
      exact (if_neg hlarge).trans (ofKindChecked_kind (.number (Numeral.value ds)))

/-- The token of a single character carries no number. -/
theorem value?_of_symbol {c : Char} {t : Token} (h : (c, t) ∈ symbols) : t.value? = none := by
  have hall : ∀ p ∈ symbols, p.2.value? = none := by decide
  exact hall (c, t) h

theorem digits_of_run {c : Char} (cs : List Char) (hdigit : Numeral.isDigit c = true) :
    ∀ d ∈ c :: cs.takeWhile Numeral.isDigit, Numeral.isDigit d = true := by
  intro d hd
  rcases List.mem_cons.mp hd with rfl | hd
  · exact hdigit
  · exact List.all_eq_true.mp List.all_takeWhile d hd

theorem mapError_cons (t : Token) (r : Except ScanFault (List Token)) :
    ((t :: ·) <$> r).mapError Stop.fault = (t :: ·) <$> r.mapError Stop.fault := by
  cases r <;> rfl

end CheckLemmas

open ScanningLemmas CheckLemmas

/-- Scanning with checks finds the same tokens, and the same faults and nothing else. -/
theorem scanCheckedFrom_eq (index : Nat) (cs : List Char) :
    scanCheckedFrom index cs = (scanFrom index cs).mapError .fault := by
  fun_induction scanFrom index cs with
  | case1 index =>
    rw [scanCheckedFrom.eq_def]
    rfl
  | case2 index c cs hblank ih =>
    rw [scanCheckedFrom.eq_def]
    dsimp only
    rw [if_pos hblank]
    exact ih
  | case3 index c cs hblank hdigit run ds hlarge =>
    rw [scanCheckedFrom.eq_def]
    dsimp only
    rw [if_neg hblank, if_pos hdigit, ofDigitsChecked_significant (digits_of_run cs hdigit),
      if_pos hlarge]
    rfl
  | case4 index c cs hblank hdigit run ds hsmall ih =>
    rw [scanCheckedFrom.eq_def]
    dsimp only
    rw [if_neg hblank, if_pos hdigit, ofDigitsChecked_significant (digits_of_run cs hdigit),
      if_neg hsmall, mapError_cons]
    exact congrArg (_ <$> ·) ih
  | case5 index c cs hblank hdigit t ht ih =>
    have hkind : ofKindChecked t.kind none = .ok t :=
      value?_of_symbol (ofChar?_eq_some.mp ht) ▸ ofKindChecked_kind t
    rw [scanCheckedFrom.eq_def]
    dsimp only
    rw [if_neg hblank, if_neg hdigit, ht, Option.map_some]
    dsimp only
    rw [hkind, mapError_cons]
    exact congrArg (_ <$> ·) ih
  | case6 index c cs hblank hdigit hnone =>
    rw [scanCheckedFrom.eq_def]
    dsimp only
    rw [if_neg hblank, if_neg hdigit, hnone]
    rfl

theorem scanChecked_eq (line : String) : scanChecked line = (scan line).mapError .fault :=
  scanCheckedFrom_eq 1 line.toList

end Token

/-! ## 2. Numbers in range -/

/-- The numbers of a line are in range: a longest run of digits that denotes another one would
be in the way. -/
theorem numbersInRange_scan {line : String} {ts : List Token} (h : Token.scan line = .ok ts) :
    NumbersInRange ts := by
  have haccounts := Token.ScanningLemmas.scan_accounts line
  rw [h] at haccounts
  obtain ⟨⟨placed, rfl, -, hplaced⟩, hfree⟩ := haccounts
  intro v hv
  obtain ⟨⟨i, t⟩, hmem, rfl⟩ := List.mem_map.mp hv
  obtain ⟨-, ⟨-, hsymbol⟩ | hrun⟩ := (hplaced i _).mp hmem
  · cases Token.CheckLemmas.value?_of_symbol hsymbol
  · refine ⟨Int.natCast_nonneg _, Int.ofNat_le.mpr (Nat.le_of_not_lt fun hlarge => ?_)⟩
    exact hfree i _ (Nat.zero_le i) (.tooLarge hrun hlarge)

/-! ## 3. Faults in words -/

/-- How reading stops for a fault under a limit: with the fault, or for lack of words where the
limit, which it has to tell, is too long to be written. -/
def ParseFault.Stops (limit : Int) (fault : ParseFault) : Prop :=
  fault.stop = .fault fault ∨
    Numeral.isTooLong limit = true ∧ (∃ position, fault = .tooDeep position limit) ∧
      fault.stop = .breach .wording

open OutlookLemmas

namespace CheckLemmas

variable {limit : Int} {position : Nat} {s : Outlook} {t : Token} {fault : ParseFault}

theorem not_any_isTooLong (ht : ∀ v, t = .number v → InRange v) :
    t.value?.toList.any Numeral.isTooLong = false := by
  cases t with
  | number v =>
    obtain ⟨hnonneg, hmax⟩ := ht v rfl
    have hlong : Numeral.isTooLong v = false := Draft.not_isTooLong (by omega)
    simp [Token.value?, hlong]
  | operator op => rfl
  | opening => rfl
  | closing => rfl

/-- Parentheses that are one too many are told with the limit. -/
theorem stop_tooDeep (position : Nat) (limit : Int) :
    (ParseFault.tooDeep position limit).stop =
      if Numeral.isTooLong limit then .breach .wording else .fault (.tooDeep position limit) := by
  rw [ParseFault.stop_of_isSome rfl, ParseFault.told, List.any_cons, List.any_nil, Bool.or_false]

theorem stops_tooDeep (limit : Int) (position : Nat) :
    ParseFault.Stops limit (.tooDeep position limit) := by
  unfold ParseFault.Stops
  rw [stop_tooDeep]
  cases Numeral.isTooLong limit with
  | true => exact .inr ⟨rfl, ⟨position, rfl⟩, rfl⟩
  | false => exact .inl rfl

/-- At a token in range a pass stops with a fault that can be told, if the limit can. -/
theorem stops_of_step_error (ht : ∀ v, t = .number v → InRange v)
    (h : s.step limit position t = .error fault) : fault.Stops limit := by
  have hstop (fault : ParseFault) (hposition : fault.position?.isSome = true)
      (htold : fault.told = t.value?.toList) : fault.Stops limit := by
    refine .inl ?_
    rw [ParseFault.stop_of_isSome hposition, htold, not_any_isTooLong ht]
    rfl
  unfold Outlook.step at h
  split at h
  · next opened v =>
    obtain ⟨w, hw⟩ := exists_literal?_eq_ok.mpr (ht v rfl)
    rw [hw] at h
    cases h
  · split at h
    · cases h
      exact stops_tooDeep limit position
    · cases h
  · cases h
    exact hstop _ rfl rfl
  · cases h
  · cases h
  · cases h
    exact hstop _ rfl rfl
  · cases h
    exact hstop _ rfl rfl

theorem stops_of_finish_error (h : s.finish position = .error fault) : fault.Stops limit := by
  unfold Outlook.finish at h
  split at h
  · split at h <;> cases h <;> exact .inl rfl
  · cases h
    exact .inl rfl
  · cases h

end CheckLemmas

open CheckLemmas

/-- A fault of tokens whose numbers are in range can be told, if the limit can. -/
theorem ofTokens_stop {limit : Int} {ts : List Token} {fault : ParseFault}
    (hts : NumbersInRange ts) (h : Expr.ofTokens limit ts = .error fault) :
    fault.Stops limit := by
  have hverdict := ofTokens_eq_error.mp h
  rw [Outlook.verdict] at hverdict
  split at hverdict
  · next stop hrun =>
    cases hverdict
    obtain ⟨before, t, after, s, rfl, -, hstep⟩ := run_eq_error hrun
    exact stops_of_step_error (fun v hv => hts v (by simp [hv])) hstep
  · exact stops_of_finish_error hverdict

/-- Tokens whose numbers are in range are refused for how they are ordered only. -/
theorem ofTokens_ne_outOfRange {limit : Int} {ts : List Token} (hts : NumbersInRange ts)
    (fault : RangeFault) : Expr.ofTokens limit ts ≠ .error (.outOfRange fault) := by
  intro h
  rcases ofTokens_stop hts h with hstop | ⟨-, ⟨position, hdeep⟩, -⟩
  · cases hstop
  · cases hdeep

/-! ## 4. Calculating with checks -/

/-- A failure outside of the arithmetic is no fault of the line. -/
def EvalFault.stop : EvalFault → Stop EvalFault
  | .arithmetic fault => .fault (.arithmetic fault)
  | fault => .breach (.evaluation fault)

def Stop.map {φ ψ : Type} (f : φ → ψ) : Stop φ → Stop ψ
  | .fault a => .fault (f a)
  | .breach b => .breach b

namespace Calculator

/-- A calculation that checks every operation it relies on. -/
def traceChecked (limit : Int) (line : String) : Except (Stop Fault) Calculation := do
  let tokens ← (Token.scanChecked line).mapError (.map .scan)
  let tree ← (ofTokensAt limit tokens).mapError (.map .parse)
  let value ← tree.eval.mapError fun fault => fault.stop.map .eval
  return { source := line, tokens := tokens, tree := tree, value := value }

/-- The faults that a line may have: one of its text, or if that is scanned one of the order of
its tokens, or if they form an expression one of its arithmetic. -/
inductive Fault.OfLine (limit : Int) (line : String) : Fault → Prop
  | scan {stop : Token.ScanFault} : Token.scan line = .error stop → OfLine limit line (.scan stop)
  | parse {ts : List Token} {stop : ParseFault} : Token.scan line = .ok ts →
      Expr.ofTokens limit ts = .error stop → (∀ range, stop ≠ .outOfRange range) →
      OfLine limit line (.parse stop)
  | eval {ts : List Token} {tree : Expr} {stop : ArithmeticFault} : Token.scan line = .ok ts →
      Expr.ofTokens limit ts = .ok tree → tree.eval = .error (.arithmetic stop) →
      OfLine limit line (.eval (.arithmetic stop))

/-- How a fault of a calculation is seen by one that checks everything. -/
def Fault.stop : Fault → Stop Fault
  | .scan fault => .fault (.scan fault)
  | .parse fault => fault.stop.map .parse
  | .eval fault => fault.stop.map .eval

/-- A fault of a line is told, unless it is that of a limit that is too long to be written. -/
theorem Fault.OfLine.stop_cases {limit : Int} {line : String} {fault : Fault}
    (h : fault.OfLine limit line) :
    fault.stop = .fault fault ∨
      Numeral.isTooLong limit = true ∧ (∃ position, fault = .parse (.tooDeep position limit)) ∧
        fault.stop = .breach .wording := by
  cases h with
  | scan _ => exact .inl rfl
  | eval _ _ _ => exact .inl rfl
  | @parse ts stop hscan hread _ =>
    rw [Fault.stop]
    rcases ofTokens_stop (numbersInRange_scan hscan) hread with
      hstop | ⟨hlong, ⟨position, rfl⟩, hstop⟩
    · rw [hstop]
      exact .inl rfl
    · rw [hstop]
      exact .inr ⟨hlong, ⟨position, rfl⟩, rfl⟩

/-- With checks a calculation has the same result, and ends with a breach where it would
otherwise end with a fault that is none of the line or has no words. -/
theorem traceChecked_eq (limit : Int) (line : String) :
    traceChecked limit line = (trace limit line).mapError Fault.stop := by
  rw [traceChecked, Token.scanChecked_eq, trace_eq]
  cases Token.scan line with
  | error fault => rfl
  | ok ts =>
    dsimp only [Except.mapError, bind, Except.bind]
    rw [ofTokensAt_eq_ofTokens]
    cases Expr.ofTokens limit ts with
    | error fault => rfl
    | ok tree =>
      dsimp only [Except.mapError]
      cases tree.eval <;> rfl

/-- A line that is not calculated has a fault of its own. -/
theorem ofLine_of_trace {limit : Int} {line : String} {fault : Fault}
    (h : trace limit line = .error fault) : fault.OfLine limit line := by
  rcases trace_eq_error h with
    ⟨stop, hscan, rfl⟩ | ⟨ts, stop, hscan, hread, rfl⟩ | ⟨ts, tree, stop, hscan, hread, heval, rfl⟩
  · exact .scan hscan
  · refine .parse hscan hread fun range hrange => ?_
    rw [hrange] at hread
    exact ofTokens_ne_outOfRange (numbersInRange_scan hscan) range hread
  · exact .eval hscan hread heval

/-- The value of an expression is in range. -/
theorem inRange_of_eval {e : Expr} {v : Int} (h : e.eval = .ok v) : InRange v := by
  rcases e.eval_cases with ⟨-, w, -, hw, heval⟩ | ⟨op, left, right, a, b, fault, hfail⟩
  · rw [heval] at h
    cases h
    exact hw
  · rw [hfail.eval] at h
    cases h

/-- A line is settled under a limit in one of two ways. Either it has a value, which is in range:
the calculation and its trace answer with it, and the trace holds the tokens and the tree that
the value comes from. Or both answer with the fault of the first stage that fails: one of the
text, of the order of the tokens, or of the arithmetic. A calculation that checks every
operation ends the same way, so no operation is used where it has no result. -/
def Settles (limit : Int) (line : String) : Prop :=
  (∃ c : Calculation, InRange c.value ∧ c.source = line ∧
    Token.scan line = .ok c.tokens ∧ Expr.ofTokens limit c.tokens = .ok c.tree ∧
    c.tree.eval = .ok c.value ∧
    calculate limit line = .ok c.value ∧ trace limit line = .ok c ∧
    traceChecked limit line = .ok c) ∨
  ∃ fault : Fault, fault.OfLine limit line ∧
    calculate limit line = .error fault ∧ trace limit line = .error fault ∧
    traceChecked limit line = .error (.fault fault)

/-- Every line is settled, whatever the limit, but where its parentheses exceed a limit that is
too long to be written. There the fault, which has to tell the limit, has no words, and this is
the only operation that is used where it has no result. -/
theorem calculation_ends (limit : Int) (line : String) :
    Settles limit line ∨
      Numeral.isTooLong limit = true ∧
        (∃ position, (Fault.parse (.tooDeep position limit)).OfLine limit line) ∧
        traceChecked limit line = .error (.breach .wording) := by
  unfold Settles
  rw [calculate_eq_trace, traceChecked_eq]
  cases h : trace limit line with
  | ok c =>
    obtain ⟨hsource, hscan, hread, heval⟩ := trace_eq_ok.mp h
    exact .inl (.inl ⟨c, inRange_of_eval heval, hsource, hscan, hread, heval, rfl, rfl, rfl⟩)
  | error fault =>
    have hline := ofLine_of_trace h
    rcases hline.stop_cases with hstop | ⟨hlong, ⟨position, rfl⟩, hstop⟩
    · exact .inl (.inr ⟨fault, hline, rfl, rfl, congrArg Except.error hstop⟩)
    · exact .inr ⟨hlong, ⟨position, hline⟩, congrArg Except.error hstop⟩

/-- With a limit of one digit too many below zero already the first parenthesis exceeds it. -/
theorem not_settles_unwritable : ¬ Settles (-(Nat.pow 10 Numeral.maxLength : Nat)) "(1)" := by
  generalize hlimit : -((Nat.pow 10 Numeral.maxLength : Nat) : Int) = limit
  have hlong : Numeral.isTooLong limit = true := by
    rw [← hlimit]
    decide +kernel
  have hneg : limit ≤ 0 := by
    rw [← hlimit]
    exact Int.neg_nonpos_of_nonneg (Int.natCast_nonneg _)
  have hscan : Token.scan "(1)" = .ok [.opening, .number 1, .closing] := by
    with_unfolding_all rfl
  have hread : Expr.ofTokens limit [.opening, .number 1, .closing] = .error (.tooDeep 1 limit) :=
    ofTokens_eq_error.mpr (Outlook.verdict_cons_error (if_pos hneg))
  have htrace : trace limit "(1)" = .error (.parse (.tooDeep 1 limit)) := by
    rw [trace_eq, hscan]
    dsimp only
    rw [hread]
  have hbreach : traceChecked limit "(1)" = .error (.breach .wording) := by
    rw [traceChecked_eq, htrace]
    show Except.error ((ParseFault.tooDeep 1 limit).stop.map Fault.parse) = _
    rw [stop_tooDeep, if_pos hlong]
    rfl
  rintro (⟨c, -, -, -, -, -, -, -, hok⟩ | ⟨fault, -, -, -, hfault⟩)
  · rw [hbreach] at hok
    cases hok
  · rw [hbreach] at hfault
    cases hfault

end Calculator

end Abacus
