import Abacus.Calculator
import Abacus.Proofs.Evaluation

/-!
# The stages of a calculation

What a calculation answers with, told by its stages: it has a value when every stage
succeeds, and otherwise the fault of the first stage that fails.

Results:
1. `trace_eq_ok`, `trace_eq_error`: everything that a calculation can answer with.
2. `calculate_eq_trace`: without the stages it answers with the same value or fault.
3. `eval_fault`: the last stage fails in its arithmetic only.
-/

namespace Abacus

/-- An expression fails in its arithmetic only. -/
theorem Expr.eval_fault {e : Expr} {fault : EvalFault} (h : e.eval = .error fault) :
    ∃ stop, fault = .arithmetic stop := by
  rcases e.eval_cases with ⟨-, v, -, -, heval⟩ | ⟨op, left, right, a, b, stop, hfail⟩
  · rw [heval] at h
    cases h
  · rw [hfail.eval] at h
    cases h
    exact ⟨stop, rfl⟩

namespace Calculator

theorem trace_eq (limit : Int) (line : String) :
    trace limit line =
      match Token.scan line with
      | .error stop => .error (.scan stop)
      | .ok ts =>
        match Expr.ofTokens limit ts with
        | .error stop => .error (.parse stop)
        | .ok tree =>
          match tree.eval with
          | .error stop => .error (.eval stop)
          | .ok v => .ok ⟨line, ts, tree, v⟩ := by
  unfold trace scan
  cases Token.scan line with
  | error stop => rfl
  | ok ts =>
    dsimp only [Except.mapError, bind, Except.bind]
    cases Expr.ofTokens limit ts with
    | error stop => rfl
    | ok tree =>
      dsimp only
      cases tree.eval <;> rfl

/-- The value of a line is the one that its trace ends with. -/
theorem calculate_eq_trace (limit : Int) (line : String) :
    calculate limit line = (trace limit line).map (·.value) := by
  unfold calculate trace parse
  cases scan line with
  | error fault => rfl
  | ok ts =>
    dsimp only [bind, Except.bind]
    cases (Expr.ofTokens limit ts).mapError Fault.parse with
    | error fault => rfl
    | ok tree =>
      dsimp only
      cases tree.eval.mapError Fault.eval <;> rfl

variable {limit : Int} {line : String}

theorem trace_eq_ok {c : Calculation} :
    trace limit line = .ok c ↔
      c.source = line ∧ Token.scan line = .ok c.tokens ∧
        Expr.ofTokens limit c.tokens = .ok c.tree ∧ c.tree.eval = .ok c.value := by
  rw [trace_eq]
  constructor
  · intro h
    split at h
    · cases h
    · next ts hscan =>
      split at h
      · cases h
      · next tree hread =>
        split at h
        · cases h
        · next v heval =>
          cases h
          exact ⟨rfl, hscan, hread, heval⟩
  · obtain ⟨source, tokens, tree, value⟩ := c
    rintro ⟨rfl, hscan, hread, heval⟩
    dsimp only at hscan hread heval
    rw [hscan]
    dsimp only
    rw [hread]
    dsimp only
    rw [heval]

theorem trace_eq_error {fault : Fault} (h : trace limit line = .error fault) :
    (∃ stop, Token.scan line = .error stop ∧ fault = .scan stop) ∨
    (∃ ts stop, Token.scan line = .ok ts ∧ Expr.ofTokens limit ts = .error stop ∧
      fault = .parse stop) ∨
    ∃ ts tree stop, Token.scan line = .ok ts ∧ Expr.ofTokens limit ts = .ok tree ∧
      tree.eval = .error (.arithmetic stop) ∧ fault = .eval (.arithmetic stop) := by
  rw [trace_eq] at h
  split at h
  · next stop hscan =>
    cases h
    exact .inl ⟨stop, hscan, rfl⟩
  · next ts hscan =>
    split at h
    · next stop hread =>
      cases h
      exact .inr (.inl ⟨ts, stop, hscan, hread, rfl⟩)
    · next tree hread =>
      split at h
      · next stop heval =>
        cases h
        obtain ⟨stop, rfl⟩ := Expr.eval_fault heval
        exact .inr (.inr ⟨ts, tree, stop, hscan, hread, heval, rfl⟩)
      · cases h

end Calculator

end Abacus
