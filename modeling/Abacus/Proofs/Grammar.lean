import Abacus.Expr.OfTokens

/-!
# The grammar of expressions

Derivations of the grammar

* `expression → term (('+' | '-') term)*`
* `term → factor (('*' | '/') factor)*`
* `factor → NUMBER | '(' expression ')'`

as trees of their own, with the tokens a derivation derives, the depth to which
its parentheses nest, and the expression it denotes. Reading tokens is then
compared with deriving them.

Results:
1. `read_sound`, `read_complete`: a rule reads a phrase off the front of some
   tokens exactly when it derives that phrase, the parentheses fit the limit,
   and no operator follows with which the phrase could have gone on.
2. `ofTokens_exactly_derivations`: tokens are an expression exactly when the
   grammar derives them within the limit, and the tree is the one that any
   derivation denotes.
-/

namespace Abacus

/-! ## 1. Derivations -/

/-- The operators that the grammar puts between the operands of a rule. -/
def Rule.operators : Rule → List Operator
  | .expression => [.add, .sub]
  | .term => [.mul, .div]
  | .factor => []

mutual

/-- A derivation of a phrase by a rule of the grammar. -/
inductive Derivation : Rule → Type
  | number (value : UInt64) : Derivation .factor
  | group (inner : Derivation .expression) : Derivation .factor
  | chain {rule : Rule} (above : rule ≠ .factor) (first : Derivation rule.operand)
      (more : Repetition rule) : Derivation rule

/-- What follows the first operand of a rule: any number of its operators, each
with an operand behind it. -/
inductive Repetition : Rule → Type
  | nil {rule : Rule} : Repetition rule
  | cons {rule : Rule} (op : Operator) (joins : op ∈ rule.operators)
      (operand : Derivation rule.operand) (more : Repetition rule) : Repetition rule

end

mutual

def Derivation.tokens : {rule : Rule} → Derivation rule → List Token
  | _, .number value => [.number value.toNat]
  | _, .group inner => .opening :: inner.tokens ++ [.closing]
  | _, .chain _ first more => first.tokens ++ more.tokens

def Repetition.tokens : {rule : Rule} → Repetition rule → List Token
  | _, .nil => []
  | _, .cons op _ operand more => .operator op :: operand.tokens ++ more.tokens

end

mutual

/-- How deep the parentheses of a derivation nest. -/
def Derivation.nesting : {rule : Rule} → Derivation rule → Nat
  | _, .number _ => 0
  | _, .group inner => inner.nesting + 1
  | _, .chain _ first more => max first.nesting more.nesting

/-- How deep the parentheses of a repetition nest. -/
def Repetition.nesting : {rule : Rule} → Repetition rule → Nat
  | _, .nil => 0
  | _, .cons _ _ operand more => max operand.nesting more.nesting

end

mutual

/-- The expression that a derivation denotes. Parentheses leave no node. -/
def Derivation.tree : {rule : Rule} → Derivation rule → Expr
  | _, .number value => .literal value
  | _, .group inner => inner.tree
  | _, .chain _ first more => more.fold first.tree

/-- The expression that a repetition makes of the one on its left. It is folded
to the left. -/
def Repetition.fold : {rule : Rule} → Repetition rule → Expr → Expr
  | _, .nil, left => left
  | _, .cons op _ operand more, left => more.fold (.binary op left operand.tree)

end

/-- The parentheses of a phrase inside `depth` open ones stay within a limit. A
phrase without parentheses always does. -/
def Nests (limit : Int) (depth nesting : Nat) : Prop :=
  nesting = 0 ∨ (depth + nesting : Int) ≤ limit

/-- A phrase of a rule that ends in front of these tokens cannot go on: the next
token is no operator of the rule or of the one below it. -/
def Rule.StopsAt (rule : Rule) (rest : List Token) : Prop :=
  ∀ op more, rest = .operator op :: more → op ∉ rule.operators ∧ op ∉ rule.operand.operators

/-- No operand begins with these tokens. -/
def NoOperand (ts : List Token) : Prop :=
  (∀ v more, ts ≠ .number v :: more) ∧ ∀ more, ts ≠ .opening :: more

/-! ## 2. Reading without bounds -/

/-- A phrase of a rule read off the front of some tokens: its tree, and the
tokens after it. -/
def Rule.read (limit : Int) (depth : Nat) (rule : Rule) (ts : List Token) :
    Except Halt (Expr × List Token) :=
  (readPhrase limit depth rule ts).map fun phrase => (phrase.tree, phrase.rest)

/-- A phrase of a rule extended as far as the tokens go on with it: its tree, and
the tokens after it. -/
def Rule.extend (limit : Int) (depth : Nat) (rule : Rule) (tree : Expr) (ts : List Token) :
    Except Halt (Expr × List Token) :=
  (extendPhrase limit depth rule tree ts).map fun phrase => (phrase.tree, phrase.rest)

namespace GrammarLemmas

variable {limit : Int} {depth : Nat} {rule : Rule} {tree : Expr} {ts rest : List Token}

theorem read_number (v : Int) :
    Rule.read limit depth .factor (.number v :: rest) =
      match literal? v with
      | .ok value => .ok (.literal value, rest)
      | .error fault => .error (.outOfRange fault) := by
  rw [Rule.read, readPhrase]
  cases literal? v <;> rfl

theorem read_opening :
    Rule.read limit depth .factor (.opening :: rest) =
      if limit ≤ depth then .error (.tooDeep rest)
      else
        match Rule.read limit (depth + 1) .expression rest with
        | .error halt => .error halt
        | .ok (tree, .closing :: after) => .ok (tree, after)
        | .ok (_, after) => .error (.closingWanted after) := by
  rw [Rule.read, readPhrase, Rule.read]
  split
  · rfl
  · cases readPhrase limit (depth + 1) .expression rest with
    | error halt => rfl
    | ok inner =>
      obtain ⟨tree, after, h⟩ := inner
      rcases after with _ | ⟨_ | _ | _ | _, after⟩ <;> rfl

theorem read_noOperand (h : NoOperand ts) :
    Rule.read limit depth .factor ts = .error (.operandWanted ts) := by
  rw [Rule.read, readPhrase]
  · rfl
  · exact h.1
  · exact h.2

theorem operand_cases (ts : List Token) :
    (∃ v more, ts = .number v :: more) ∨ (∃ more, ts = .opening :: more) ∨ NoOperand ts := by
  rcases ts with _ | ⟨v | op | _ | _, more⟩
  · exact .inr (.inr ⟨nofun, nofun⟩)
  · exact .inl ⟨v, more, rfl⟩
  · exact .inr (.inr ⟨nofun, nofun⟩)
  · exact .inr (.inl ⟨more, rfl⟩)
  · exact .inr (.inr ⟨nofun, nofun⟩)

/-- Above the factors a rule reads an operand and extends it. -/
theorem read_chain (h : rule ≠ .factor) :
    Rule.read limit depth rule ts =
      match Rule.read limit depth rule.operand ts with
      | .error halt => .error halt
      | .ok (first, rest) => Rule.extend limit depth rule first rest := by
  cases rule with
  | factor => exact absurd rfl h
  | term =>
    rw [Rule.read, readPhrase, Rule.read, Rule.operand]
    cases readPhrase limit depth .factor ts with
    | error halt => rfl
    | ok first =>
      dsimp only [Except.map, Rule.extend]
      cases extendPhrase limit depth .term first.tree first.rest <;> rfl
  | expression =>
    rw [Rule.read, readPhrase, Rule.read, Rule.operand]
    cases readPhrase limit depth .term ts with
    | error halt => rfl
    | ok first =>
      dsimp only [Except.map, Rule.extend]
      cases extendPhrase limit depth .expression first.tree first.rest <;> rfl

theorem joins_eq_true {op : Operator} : rule.joins op = true ↔ op ∈ rule.operators := by
  cases rule <;> cases op <;> decide

theorem extend_operator {op : Operator} (h : op ∈ rule.operators) :
    Rule.extend limit depth rule tree (.operator op :: rest) =
      match Rule.read limit depth rule.operand rest with
      | .error halt => .error halt
      | .ok (right, after) => Rule.extend limit depth rule (.binary op tree right) after := by
  rw [Rule.extend, extendPhrase, if_pos (joins_eq_true.mpr h), Rule.read]
  cases readPhrase limit depth rule.operand rest with
  | error halt => rfl
  | ok right =>
    dsimp only [Except.map, Rule.extend]
    cases extendPhrase limit depth rule (.binary op tree right.tree) right.rest <;> rfl

theorem extend_stop (h : ∀ op more, ts = .operator op :: more → op ∉ rule.operators) :
    Rule.extend limit depth rule tree ts = .ok (tree, ts) := by
  rw [Rule.extend, extendPhrase.eq_def]
  split
  · next op more =>
    rw [if_neg fun hj => h op more rfl (joins_eq_true.mp hj)]
    rfl
  · rfl

theorem length_read (h : Rule.read limit depth rule ts = .ok (tree, rest)) :
    rest.length < ts.length := by
  rw [Rule.read] at h
  cases hp : readPhrase limit depth rule ts with
  | error halt =>
    rw [hp] at h
    cases h
  | ok phrase =>
    rw [hp] at h
    cases h
    exact phrase.length_rest_lt

theorem rank_operand (h : rule ≠ .factor) : rule.operand.rank < rule.rank := by
  cases rule with
  | factor => exact absurd rfl h
  | term | expression => decide

theorem nests_succ {nesting : Nat} :
    Nests limit depth (nesting + 1) ↔ ¬ limit ≤ depth ∧ Nests limit (depth + 1) nesting := by
  unfold Nests
  omega

theorem nests_max {a b : Nat} :
    Nests limit depth (max a b) ↔ Nests limit depth a ∧ Nests limit depth b := by
  unfold Nests
  omega

/-- The operators of a rule are none of those below it. -/
theorem not_mem_below {op : Operator} (h : op ∈ rule.operators) :
    op ∉ rule.operand.operators ∧ op ∉ rule.operand.operand.operators := by
  revert h
  cases rule <;> cases op <;> decide

theorem stopsAt_operand (h : rule.StopsAt rest) : rule.operand.StopsAt rest := by
  intro op more hrest
  have hop := h op more hrest
  revert hop
  cases rule <;> cases op <;> decide

end GrammarLemmas

open GrammarLemmas

/-! ## 3. Reading and deriving -/

mutual

/-- What a rule reads, it derives, and it reads as much as it can. -/
theorem read_sound {limit : Int} {depth : Nat} {rule : Rule} {ts rest : List Token} {tree : Expr}
    (h : rule.read limit depth ts = .ok (tree, rest)) :
    ∃ d : Derivation rule, d.tokens ++ rest = ts ∧ d.tree = tree ∧
      Nests limit depth d.nesting ∧ rule.StopsAt rest := by
  by_cases hrule : rule = .factor
  · subst hrule
    -- No operator goes on with a factor, so what is left does not matter.
    have hstops : Rule.factor.StopsAt rest := fun _ _ _ => ⟨nofun, nofun⟩
    rcases operand_cases ts with ⟨v, more, rfl⟩ | ⟨more, hts⟩ | hno
    · rw [read_number] at h
      split at h
      · next value hv =>
        cases h
        rw [literal?_eq_ok.mp hv]
        exact ⟨.number value, rfl, rfl, .inl rfl, hstops⟩
      · cases h
    · have hlength : more.length < ts.length := by simp [hts]
      rw [hts, read_opening] at h
      split at h
      · cases h
      · next hdepth =>
        split at h
        · cases h
        · next inner after hinner =>
          obtain ⟨d, htokens, rfl, hd, -⟩ := read_sound hinner
          cases h
          refine ⟨.group d, ?_, rfl, nests_succ.mpr ⟨hdepth, hd⟩, hstops⟩
          simp [Derivation.tokens, hts, ← htokens]
        · cases h
    · rw [read_noOperand hno] at h
      cases h
  · rw [read_chain hrule] at h
    split at h
    · cases h
    · next first mid hfirst =>
      -- The first operand takes the same tokens by a rule of lower rank.
      have hrank := rank_operand hrule
      have hlength := length_read hfirst
      obtain ⟨d, hd, rfl, hdNests, hmid⟩ := read_sound hfirst
      obtain ⟨more, hmore, rfl, hmoreNests, hrest⟩ := extend_sound hmid h
      refine ⟨.chain hrule d more, ?_, rfl, nests_max.mpr ⟨hdNests, hmoreNests⟩, hrest⟩
      rw [Derivation.tokens, List.append_assoc, hmore, hd]
termination_by (ts.length, rule.rank + 1)
decreasing_by
  · exact Prod.Lex.left _ _ hlength
  · exact Prod.Lex.right _ (Nat.succ_lt_succ hrank)
  · exact Prod.Lex.left _ _ hlength

/-- What extends a phrase of a rule is a repetition of its operators. -/
theorem extend_sound {limit : Int} {depth : Nat} {rule : Rule} {ts rest : List Token}
    {left tree : Expr} (hts : rule.operand.StopsAt ts)
    (h : rule.extend limit depth left ts = .ok (tree, rest)) :
    ∃ more : Repetition rule, more.tokens ++ rest = ts ∧ more.fold left = tree ∧
      Nests limit depth more.nesting ∧ rule.StopsAt rest := by
  by_cases hop : ∃ op more, ts = .operator op :: more ∧ op ∈ rule.operators
  · obtain ⟨op, more, hop, hmem⟩ := hop
    have hmore : more.length < ts.length := by simp [hop]
    rw [hop, extend_operator hmem] at h
    split at h
    · cases h
    · next right mid hright =>
      have hmid := Nat.lt_trans (length_read hright) hmore
      obtain ⟨d, hd, rfl, hdNests, hstops⟩ := read_sound hright
      obtain ⟨tail, htail, rfl, htailNests, hrest⟩ := extend_sound hstops h
      refine ⟨.cons op hmem d tail, ?_, rfl, nests_max.mpr ⟨hdNests, htailNests⟩, hrest⟩
      rw [Repetition.tokens, List.cons_append, List.cons_append, List.append_assoc, htail, hd, hop]
  · have hnot : ∀ op more, ts = .operator op :: more → op ∉ rule.operators :=
      fun op more heq hmem => hop ⟨op, more, heq, hmem⟩
    rw [extend_stop hnot] at h
    cases h
    exact ⟨.nil, rfl, rfl, .inl rfl, fun op more heq => ⟨hnot op more heq, (hts op more heq).1⟩⟩
termination_by (ts.length, 0)
decreasing_by
  · exact Prod.Lex.left _ _ hmore
  · exact Prod.Lex.left _ _ hmid

end

/-! The converse goes by the derivation. Behind the first operand stands an
operator of the rule, or what follows the whole phrase; either way the operand
cannot go on. -/

namespace GrammarLemmas

theorem stopsAt_tokens {rule : Rule} {rest : List Token} (more : Repetition rule)
    (h : rule.StopsAt rest) : rule.operand.StopsAt (more.tokens ++ rest) := by
  cases more with
  | nil => exact stopsAt_operand h
  | cons op joins operand more =>
    intro op' more' heq
    obtain ⟨⟨⟩, -⟩ := List.cons.inj heq
    exact not_mem_below joins

end GrammarLemmas

mutual

/-- A rule reads what it derives, when the parentheses stay within the limit and
the phrase cannot go on behind it. -/
theorem read_complete {limit : Int} {depth : Nat} {rule : Rule} {rest : List Token} :
    (d : Derivation rule) → Nests limit depth d.nesting → rule.StopsAt rest →
      rule.read limit depth (d.tokens ++ rest) = .ok (d.tree, rest)
  | .number value, _, _ => by
    rw [Derivation.tokens, List.singleton_append, read_number, literal?_eq_ok.mpr rfl]
    rfl
  | .group inner, hd, _ => by
    obtain ⟨hdepth, hinner⟩ := nests_succ.mp hd
    have hstops : Rule.expression.StopsAt (.closing :: rest) := nofun
    have hread := read_complete inner hinner hstops
    simp only [Derivation.tokens, List.cons_append, List.append_assoc, List.nil_append]
    rw [read_opening, if_neg hdepth, hread]
    rfl
  | .chain above first more, hd, hrest => by
    obtain ⟨hfirst, hmore⟩ := nests_max.mp hd
    have hread := read_complete first hfirst (stopsAt_tokens more hrest)
    rw [Derivation.tokens, List.append_assoc, read_chain above, hread]
    exact extend_complete more hmore hrest

/-- A repetition extends whatever phrase stands on its left. -/
theorem extend_complete {limit : Int} {depth : Nat} {rule : Rule} {rest : List Token}
    {left : Expr} :
    (more : Repetition rule) → Nests limit depth more.nesting → rule.StopsAt rest →
      rule.extend limit depth left (more.tokens ++ rest) = .ok (more.fold left, rest)
  | .nil, _, hrest => extend_stop fun op more heq => (hrest op more heq).1
  | .cons op joins operand more, hd, hrest => by
    obtain ⟨hoperand, hmore⟩ := nests_max.mp hd
    have hread := read_complete operand hoperand (stopsAt_tokens more hrest)
    simp only [Repetition.tokens, List.cons_append, List.append_assoc]
    rw [extend_operator joins, hread]
    exact extend_complete more hmore hrest

end

/-! ## 4. All of the tokens -/

namespace GrammarLemmas

theorem nests_zero {limit : Int} {nesting : Nat} :
    Nests limit 0 nesting ↔ (nesting : Int) ≤ max limit 0 := by
  unfold Nests
  omega

theorem ofTokens_eq_read {limit : Int} {ts : List Token} :
    Expr.ofTokens limit ts =
      match Rule.expression.read limit 0 ts with
      | .error halt => .error (halt.fault limit ts)
      | .ok (tree, []) => .ok tree
      | .ok (_, t :: rest) => .error (.trailing t (ts.length - rest.length)) := by
  rw [Expr.ofTokens, Rule.read]
  cases readPhrase limit 0 .expression ts with
  | error halt => rfl
  | ok phrase =>
    obtain ⟨tree, rest, h⟩ := phrase
    cases rest <;> rfl

theorem read_eq_ok_nil {limit : Int} {ts : List Token} {tree : Expr} :
    Rule.expression.read limit 0 ts = .ok (tree, []) ↔ Expr.ofTokens limit ts = .ok tree := by
  rw [ofTokens_eq_read]
  rcases Rule.expression.read limit 0 ts with halt | ⟨tree', _ | ⟨t, rest⟩⟩ <;> simp

end GrammarLemmas

/-- The expression that tokens form is the one that a derivation of all of them
within the limit denotes. -/
theorem ofTokens_eq_ok {limit : Int} {ts : List Token} {tree : Expr} :
    Expr.ofTokens limit ts = .ok tree ↔
      ∃ d : Derivation .expression, d.tokens = ts ∧ d.tree = tree ∧
        (d.nesting : Int) ≤ max limit 0 := by
  rw [← read_eq_ok_nil]
  constructor
  · intro h
    obtain ⟨d, hts, htree, hd, -⟩ := read_sound h
    exact ⟨d, by simpa using hts, htree, nests_zero.mp hd⟩
  · rintro ⟨d, rfl, rfl, hd⟩
    have hread : Rule.expression.read limit 0 (d.tokens ++ []) = .ok (d.tree, []) :=
      read_complete d (nests_zero.mpr hd) nofun
    rwa [List.append_nil] at hread

/-- No two derivations of the same tokens denote different expressions: under a
limit that both respect, each is what the tokens are read as. -/
theorem tree_eq_of_tokens_eq {d d' : Derivation .expression} (h : d.tokens = d'.tokens) :
    d.tree = d'.tree := by
  have hd : Expr.ofTokens (max d.nesting d'.nesting) d.tokens = .ok d.tree :=
    ofTokens_eq_ok.mpr ⟨d, rfl, rfl, by omega⟩
  have hd' : Expr.ofTokens (max d.nesting d'.nesting) d.tokens = .ok d'.tree :=
    ofTokens_eq_ok.mpr ⟨d', h.symm, rfl, by omega⟩
  exact Except.ok.inj (hd.symm.trans hd')

/-- Tokens are an expression exactly when the grammar derives them with
parentheses that nest no deeper than the limit. The expression is then the one
that every derivation of the tokens denotes, and whether or not there is one,
all derivations of the same tokens denote the same expression. -/
theorem ofTokens_exactly_derivations (limit : Int) (ts : List Token) :
    ((∃ tree, Expr.ofTokens limit ts = .ok tree) ↔
      ∃ d : Derivation .expression, d.tokens = ts ∧ (d.nesting : Int) ≤ max limit 0) ∧
    (∀ tree, Expr.ofTokens limit ts = .ok tree →
      ∀ d : Derivation .expression, d.tokens = ts → d.tree = tree) ∧
    ∀ d d' : Derivation .expression, d.tokens = ts → d'.tokens = ts → d.tree = d'.tree := by
  refine ⟨⟨?_, ?_⟩, ?_, ?_⟩
  · rintro ⟨tree, h⟩
    obtain ⟨d, hts, -, hd⟩ := ofTokens_eq_ok.mp h
    exact ⟨d, hts, hd⟩
  · rintro ⟨d, hts, hd⟩
    exact ⟨d.tree, ofTokens_eq_ok.mpr ⟨d, hts, rfl, hd⟩⟩
  · intro tree h d hts
    obtain ⟨d', hts', htree, -⟩ := ofTokens_eq_ok.mp h
    exact htree ▸ tree_eq_of_tokens_eq (hts.trans hts'.symm)
  · intro d d' hts hts'
    exact tree_eq_of_tokens_eq (hts.trans hts'.symm)

end Abacus
