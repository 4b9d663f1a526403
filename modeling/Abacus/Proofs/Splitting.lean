import Abacus.Proofs.Redundancy

/-!
# Cutting tokens at an operator

Reading goes forward, from one operand to the next. What it comes to can also be told from
the last operator outside of all parentheses, among those that bind most loosely: what
stands in front of it and what stands behind it are read apart, and the operator joins
them.

Results:
1. `mem_outer_of_outerAt`: an operator outside of all parentheses is one that a written
   expression holds outside of its own.
2. `splitsAt_of_lastOuterAt`: a join is cut at its own operator.
3. `ofTokens_split_last`: tokens are read by cutting them at the last of their loosest outer
   operators. If there is none they are one number, or two partners around tokens that are
   read with one level of nesting less.
-/

namespace Abacus

open BracketingLemmas RedundancyLemmas

/-! ## 1. Operators outside of parentheses, by position -/

/-- Behind the first `k` tokens stands an operator outside of all parentheses: every
parenthesis in front of it has its partner there. -/
structure OuterAt (ts : List Token) (k : Nat) (op : Operator) : Prop where
  here : ts[k]? = some (.operator op)
  balanced : Balanced (ts.take k)

/-- Behind the first `k` tokens stands the last of the outer operators of a precedence. -/
structure LastOuterAt (precedence : Nat) (ts : List Token) (k : Nat) (op : Operator) : Prop where
  outer : OuterAt ts k op
  precedence_eq : op.precedence = precedence
  last : ∀ j op', OuterAt ts j op' → op'.precedence = precedence → j ≤ k

/-- A tree is what an operator makes of the tokens in front of it and of those behind it, each
read under the same limit. -/
def SplitsAt (limit : Int) (ts : List Token) (k : Nat) (op : Operator) (tree : Expr) : Prop :=
  ∃ left right, Expr.ofTokens limit (ts.take k) = .ok left ∧
    Expr.ofTokens limit (ts.drop (k + 1)) = .ok right ∧ tree = .binary op left right

namespace SplittingLemmas

theorem balanced_of_append {us ts : List Token} (hus : Balanced us) (h : Balanced (us ++ ts)) :
    Balanced ts := by
  have hsettled := h.settled
  rw [List.count_append, List.count_append, hus.settled] at hsettled
  refine ⟨fun part rest heq => ?_, Nat.add_left_cancel hsettled⟩
  have hsane := h.sane (us ++ part) rest (by rw [heq, List.append_assoc])
  rw [List.count_append, List.count_append, hus.settled] at hsane
  exact Nat.le_of_add_le_add_left hsane

variable {ts us : List Token} {k : Nat} {op op' : Operator} {left right w : Written}

/-- The operator of a join stands outside of all parentheses. -/
theorem outerAt_join : OuterAt (Written.join op left right).tokens left.tokens.length op := by
  refine ⟨?_, ?_⟩
  · simp [Written.tokens]
  · rw [Written.tokens, List.take_left]
    exact left.balanced_tokens

/-- An outer operator of a join stands in its left operand, or is its own, or stands in its
right operand. -/
theorem outerAt_join_cases (h : OuterAt (Written.join op left right).tokens k op') :
    OuterAt left.tokens k op' ∨ k = left.tokens.length ∧ op' = op ∨
      ∃ j, OuterAt right.tokens j op' := by
  obtain ⟨hhere, hbalanced⟩ := h
  rw [Written.tokens] at hhere hbalanced
  rcases Nat.lt_trichotomy k left.tokens.length with hlt | rfl | hgt
  · rw [List.getElem?_append_left hlt] at hhere
    rw [List.take_append_of_le_length (Nat.le_of_lt hlt)] at hbalanced
    exact .inl ⟨hhere, hbalanced⟩
  · rw [List.getElem?_append_right (Nat.le_refl _), Nat.sub_self] at hhere
    cases hhere
    exact .inr (.inl ⟨rfl, rfl⟩)
  · obtain ⟨j, rfl⟩ := Nat.exists_eq_add_of_le (Nat.succ_le_of_lt hgt)
    have hop : Balanced [.operator op] := balanced_singleton nofun nofun
    have hsplit : left.tokens ++ .operator op :: right.tokens =
        (left.tokens ++ [Token.operator op]) ++ right.tokens := by simp
    have hlength : left.tokens.length.succ + j =
        (left.tokens ++ [Token.operator op]).length + j := by simp
    rw [hsplit, hlength, List.getElem?_append_right (Nat.le_add_right _ _),
      Nat.add_sub_cancel_left] at hhere
    rw [hsplit, hlength, List.take_length_add_append] at hbalanced
    have hfront := balanced_append left.balanced_tokens hop
    exact .inr (.inr ⟨j, hhere, balanced_of_append hfront hbalanced⟩)

/-- Between two partners nothing stands outside of all parentheses. -/
theorem not_outerAt_group : ¬ OuterAt (Written.group w).tokens k op := by
  rintro ⟨hhere, hbalanced⟩
  cases k with
  | zero => cases hhere
  | succ k =>
    have hlt : k < w.tokens.length := by
      refine Nat.lt_of_not_le fun hle => ?_
      rw [Written.tokens, List.cons_append, List.getElem?_cons_succ,
        List.getElem?_append_right hle, List.getElem?_singleton] at hhere
      split at hhere <;> cases hhere
    have hfront : (Written.group w).tokens.take (k + 1) = [] ++ .opening :: w.tokens.take k := by
      rw [Written.tokens, List.cons_append, List.take_succ_cons,
        List.take_append_of_le_length (Nat.le_of_lt hlt), List.nil_append]
    have hinside : Balanced (w.tokens.take k ++ w.tokens.drop k) :=
      (List.take_append_drop k w.tokens).symm ▸ w.balanced_tokens
    exact not_balanced_of_opening (hfront ▸ hbalanced) hinside

theorem not_outerAt_number {value : UInt64} : ¬ OuterAt (Written.number value).tokens k op := by
  rintro ⟨hhere, -⟩
  cases k <;> cases hhere

end SplittingLemmas

open SplittingLemmas

/-- An operator outside of all parentheses is an outer operator of the written expression. -/
theorem mem_outer_of_outerAt {w : Written} {k : Nat} {op : Operator} (h : OuterAt w.tokens k op) :
    op ∈ w.outer := by
  induction w generalizing k with
  | number value => exact absurd h not_outerAt_number
  | group inner => exact absurd h not_outerAt_group
  | join op' left right ihl ihr =>
    rcases outerAt_join_cases h with hleft | ⟨-, rfl⟩ | ⟨j, hright⟩
    · exact List.mem_append_left _ (ihl hleft)
    · exact List.mem_append_right _ List.mem_cons_self
    · exact List.mem_append_right _ (List.mem_cons_of_mem _ (ihr hright))

/-! ## 2. Cutting a join -/

/-- No outer operator binds more loosely than a written expression is held together. -/
theorem level_le_of_outerAt {w : Written} {k : Nat} {op : Operator} (hbound : w.WellBound)
    (h : OuterAt w.tokens k op) : w.level ≤ op.precedence :=
  level_le_of_mem_outer hbound op (mem_outer_of_outerAt h)

/-- In a join that is held together, the last of the outer operators that bind as loosely as
the join is its own. -/
theorem eq_of_lastOuterAt {op op' : Operator} {left right : Written} {k : Nat}
    (hbound : (Written.join op left right).WellBound)
    (h : LastOuterAt op.precedence (Written.join op left right).tokens k op') :
    k = left.tokens.length ∧ op' = op := by
  have hle : left.tokens.length ≤ k := h.last _ op outerAt_join rfl
  rcases outerAt_join_cases h.outer with hleft | heq | ⟨j, hright⟩
  · have hlt : k < left.tokens.length := (List.getElem?_eq_some_iff.mp hleft.here).1
    exact absurd hle (Nat.not_le.mpr hlt)
  · exact heq
  · -- The right operand is held together more tightly than the join.
    have hlevel := level_le_of_outerAt hbound.2.2.2 hright
    rw [h.precedence_eq] at hlevel
    exact absurd hlevel (Nat.not_le.mpr hbound.2.1)

theorem splitsAt_of_lastOuterAt {limit : Int} {precedence k : Nat} {op op' : Operator}
    {left right : Written} (hbound : (Written.join op left right).WellBound)
    (hnesting : ((Written.join op left right).nesting : Int) ≤ max limit 0)
    (hle : precedence ≤ op.precedence)
    (h : LastOuterAt precedence (Written.join op left right).tokens k op') :
    SplitsAt limit (Written.join op left right).tokens k op'
      (.binary op left.tree right.tree) := by
  have hlevel : op.precedence ≤ op'.precedence := level_le_of_outerAt hbound h.outer
  obtain rfl : precedence = op.precedence := Nat.le_antisymm hle (h.precedence_eq ▸ hlevel)
  obtain ⟨rfl, rfl⟩ := eq_of_lastOuterAt hbound h
  obtain ⟨-, -, hboundLeft, hboundRight⟩ := hbound
  have hmax : (Written.join op' left right).nesting = max left.nesting right.nesting := rfl
  refine ⟨left.tree, right.tree, ?_, ?_, rfl⟩
  · rw [Written.tokens, List.take_left]
    exact ofTokens_eq_ok_iff_written.mpr ⟨left, hboundLeft, rfl, rfl, by omega⟩
  · rw [Written.tokens, ← List.drop_drop, List.drop_left]
    exact ofTokens_eq_ok_iff_written.mpr ⟨right, hboundRight, rfl, rfl, by omega⟩

/-! ## 3. Reading by cutting -/

/-- How tokens that form an expression are read, told from their operators. If some stand
outside of all parentheses, the tokens are cut at the last one of the lowest precedence, and
both parts are read under the same limit. Otherwise the tokens are one number, or partners
around tokens that are read under a limit that is one lower. -/
theorem ofTokens_split_last {limit : Int} {ts : List Token} {tree : Expr}
    (h : Expr.ofTokens limit ts = .ok tree) :
    (∀ k op, LastOuterAt 1 ts k op → SplitsAt limit ts k op tree) ∧
    ((∀ k op, OuterAt ts k op → op.precedence ≠ 1) →
      (∀ k op, LastOuterAt 2 ts k op → SplitsAt limit ts k op tree) ∧
      ((∀ k op, OuterAt ts k op → op.precedence ≠ 2) →
        (∃ value : UInt64, ts = [.number value.toNat] ∧ tree = .literal value) ∨
        ∃ inner, ts = .opening :: inner ++ [.closing] ∧ Balanced inner ∧
          Expr.ofTokens (limit - 1) inner = .ok tree)) := by
  obtain ⟨w, hbound, rfl, rfl, hnesting⟩ := ofTokens_eq_ok_iff_written.mp h
  cases w with
  | number value =>
    refine ⟨fun k op hlast => absurd hlast.outer not_outerAt_number, fun _ =>
      ⟨fun k op hlast => absurd hlast.outer not_outerAt_number, fun _ => ?_⟩⟩
    exact .inl ⟨value, rfl, rfl⟩
  | group inner =>
    refine ⟨fun k op hlast => absurd hlast.outer not_outerAt_group, fun _ =>
      ⟨fun k op hlast => absurd hlast.outer not_outerAt_group, fun _ => ?_⟩⟩
    have hinner : (inner.nesting : Int) ≤ max (limit - 1) 0 := by
      rw [Written.nesting] at hnesting
      omega
    exact .inr ⟨inner.tokens, rfl, inner.balanced_tokens,
      ofTokens_eq_ok_iff_written.mpr ⟨inner, hbound, rfl, rfl, hinner⟩⟩
  | join op left right =>
    have hprecedence : op.precedence = 1 ∨ op.precedence = 2 := by cases op <;> decide
    refine ⟨fun k op' hlast => ?_, fun hone => ⟨fun k op' hlast => ?_, fun htwo => ?_⟩⟩
    · exact splitsAt_of_lastOuterAt hbound hnesting (by omega) hlast
    · have := hone _ op outerAt_join
      exact splitsAt_of_lastOuterAt hbound hnesting (by omega) hlast
    · have := hone _ op outerAt_join
      have := htwo _ op outerAt_join
      omega

/-- In `9 - (4 - 3) - 2` the last operator outside of the parentheses is the third one, so
`9 - (4 - 3)` and `2` are read apart. -/
theorem ofTokens_split_last_difference :
    Expr.ofTokens 1 [.number 9, .operator .sub, .opening, .number 4, .operator .sub, .number 3,
        .closing, .operator .sub, .number 2] =
      .ok (.binary .sub (.binary .sub (.literal 9) (.binary .sub (.literal 4) (.literal 3)))
        (.literal 2)) ∧
    LastOuterAt 1 [.number 9, .operator .sub, .opening, .number 4, .operator .sub, .number 3,
        .closing, .operator .sub, .number 2] 7 .sub ∧
    SplitsAt 1 [.number 9, .operator .sub, .opening, .number 4, .operator .sub, .number 3,
        .closing, .operator .sub, .number 2] 7 .sub
      (.binary .sub (.binary .sub (.literal 9) (.binary .sub (.literal 4) (.literal 3)))
        (.literal 2)) := by
  let front : Written := .join .sub (.number 9) (.group (.join .sub (.number 4) (.number 3)))
  let whole : Written := .join .sub front (.number 2)
  have hread : Expr.ofTokens 1 whole.tokens = .ok whole.tree :=
    ofTokens_eq_ok_iff_written.mpr ⟨whole, by decide, rfl, rfl, by decide⟩
  have hlast : LastOuterAt 1 whole.tokens 7 .sub := by
    refine ⟨outerAt_join, rfl, fun j op hj _ => Nat.le_of_not_lt fun hlt => ?_⟩
    -- Behind it stands only a number.
    obtain ⟨i, rfl⟩ := Nat.exists_eq_add_of_le' hlt
    cases i <;> cases hj.here
  exact ⟨hread, hlast, (ofTokens_split_last hread).1 7 .sub hlast⟩

end Abacus
