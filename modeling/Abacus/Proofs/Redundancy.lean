import Abacus.Proofs.Bracketing

/-!
# Redundant parentheses

Two parentheses that belong together can always be taken out of the tokens of an
expression. Whether the tree stays the same is told by the operators nearby: the loosest
one that the parentheses hold, and those directly in front of them and behind them.

Results:
1. `exists_place`: parentheses with balanced tokens between them are a pair of the written
   expression that the tokens come from.
2. `wellBound_fill_iff`: what is held together stays so without a pair of parentheses
   exactly when the operators next to the pair allow for it.
3. `eq_of_tokens_of_tree`: tokens and tree leave one way to place the parentheses.
4. `ofTokens_without_pair`: reading the tokens without the pair succeeds, and gives the
   same tree exactly under the condition on the operators nearby.
-/

namespace Abacus

/-! ## 1. Pairs of parentheses -/

/-- Tokens in which every parenthesis has its partner: none is closed that is not open,
and none stays open. Two parentheses are partners when balanced tokens stand between
them. -/
structure Balanced (ts : List Token) : Prop where
  sane : ∀ part rest, ts = part ++ rest → part.count .closing ≤ part.count .opening
  settled : ts.count .closing = ts.count .opening

namespace RedundancyLemmas

theorem balanced_append {ts more : List Token} (h : Balanced ts) (hmore : Balanced more) :
    Balanced (ts ++ more) := by
  refine ⟨fun part rest heq => ?_, ?_⟩
  · rcases List.append_eq_append_iff.mp heq with ⟨inside, rfl, hinside⟩ | ⟨behind, hbehind, -⟩
    · have hpart := hmore.sane inside rest hinside
      rw [List.count_append, List.count_append, h.settled]
      omega
    · exact h.sane part behind hbehind
  · rw [List.count_append, List.count_append, h.settled, hmore.settled]

theorem balanced_singleton {t : Token} (hopening : t ≠ .opening) (hclosing : t ≠ .closing) :
    Balanced [t] := by
  refine ⟨fun part rest heq => ?_, ?_⟩
  · rcases List.singleton_eq_append_iff.mp heq with ⟨rfl, -⟩ | ⟨rfl, -⟩
    · exact Nat.le_refl 0
    · simp [hopening, hclosing]
  · simp [hopening, hclosing]

theorem balanced_group {ts : List Token} (h : Balanced ts) :
    Balanced (.opening :: ts ++ [.closing]) := by
  refine ⟨fun part rest heq => ?_, ?_⟩
  · rcases part with _ | ⟨t, part⟩
    · exact Nat.le_refl 0
    · obtain ⟨rfl, htail⟩ := List.cons.inj heq
      rcases List.append_eq_append_iff.mp htail with ⟨end', rfl, hend⟩ | ⟨behind, hbehind, -⟩
      · have hlast : end'.count .closing ≤ 1 := by
          have := congrArg (List.count .closing) hend
          rw [List.count_append, List.count_singleton_self] at this
          omega
        have := h.settled
        simp only [List.count_cons_self, List.count_append, List.count_cons_of_ne, ne_eq,
          reduceCtorEq, not_false_eq_true]
        omega
      · have := h.sane part behind hbehind
        simp only [List.count_cons_self, List.count_cons_of_ne, ne_eq, reduceCtorEq,
          not_false_eq_true]
        omega
  · have := h.settled
    simp [this]

end RedundancyLemmas

open BracketingLemmas RedundancyLemmas

theorem Written.balanced_tokens (w : Written) : Balanced w.tokens := by
  induction w with
  | number value => exact balanced_singleton nofun nofun
  | group inner ih => exact balanced_group ih
  | join op left right ihl ihr =>
    have hop : Balanced [.operator op] := balanced_singleton nofun nofun
    exact balanced_append ihl (balanced_append hop ihr)

namespace RedundancyLemmas

/-- Balanced tokens do not end between two partners. -/
theorem not_balanced_of_opening {before part rest : List Token}
    (h : Balanced (before ++ .opening :: part)) (hinner : Balanced (part ++ rest)) : False := by
  have hbefore := h.sane before _ rfl
  have hpart := hinner.sane part rest rfl
  have htotal := h.settled
  simp only [List.count_append, List.count_cons_self, List.count_cons_of_ne, ne_eq, reduceCtorEq,
    not_false_eq_true] at htotal
  omega

/-- What closes a parenthesis is told by the tokens in front of it. -/
theorem not_balanced_of_closing {part rest : List Token} (hpart : Balanced part) :
    ¬ Balanced (part ++ .closing :: rest) := by
  intro h
  have hclosed := h.sane (part ++ [.closing]) rest (by simp)
  have := hpart.settled
  simp only [List.count_append, List.count_singleton_self, List.count_singleton, beq_iff_eq,
    reduceCtorEq, if_false] at hclosed
  omega

theorem eq_of_balanced_of_closing {ts us more rest : List Token} (hts : Balanced ts)
    (hus : Balanced us) (h : ts ++ .closing :: more = us ++ .closing :: rest) :
    ts = us ∧ more = rest := by
  rcases List.append_eq_append_iff.mp h with ⟨_ | ⟨t, between⟩, hbetween, hmore⟩ |
    ⟨_ | ⟨t, between⟩, hbetween, hrest⟩
  · rw [List.append_nil] at hbetween
    exact ⟨hbetween.symm, (List.cons.inj hmore).2⟩
  · obtain ⟨rfl, -⟩ := List.cons.inj hmore
    exact absurd (hbetween ▸ hus) (not_balanced_of_closing hts)
  · rw [List.append_nil] at hbetween
    exact ⟨hbetween, (List.cons.inj hrest).2.symm⟩
  · obtain ⟨rfl, -⟩ := List.cons.inj hrest
    exact absurd (hbetween ▸ hts) (not_balanced_of_closing hus)

end RedundancyLemmas

/-! ## 2. Places in a written expression -/

/-- A place in a written expression: all of it but one part. -/
inductive Place where
  | whole
  | group (inner : Place)
  | joinLeft (op : Operator) (left : Place) (right : Written)
  | joinRight (op : Operator) (left : Written) (right : Place)

namespace Place

/-- The written expression with this part at the place. -/
def fill : Place → Written → Written
  | .whole, w => w
  | .group inner, w => .group (inner.fill w)
  | .joinLeft op left right, w => .join op (left.fill w) right
  | .joinRight op left right, w => .join op left (right.fill w)

/-- The tokens in front of the place. -/
def before : Place → List Token
  | .whole => []
  | .group inner => .opening :: inner.before
  | .joinLeft _ left _ => left.before
  | .joinRight op left right => left.tokens ++ .operator op :: right.before

/-- The tokens behind the place. -/
def after : Place → List Token
  | .whole => []
  | .group inner => inner.after ++ [.closing]
  | .joinLeft op left right => left.after ++ .operator op :: right.tokens
  | .joinRight _ _ right => right.after

theorem tokens_fill (p : Place) (w : Written) :
    (p.fill w).tokens = p.before ++ w.tokens ++ p.after := by
  induction p with
  | whole => simp [fill, before, after]
  | group inner ih => simp [fill, before, after, Written.tokens, ih]
  | joinLeft op left right ih => simp [fill, before, after, Written.tokens, ih]
  | joinRight op left right ih => simp [fill, before, after, Written.tokens, ih]

theorem tree_fill_group (p : Place) (w : Written) :
    (p.fill (.group w)).tree = (p.fill w).tree := by
  induction p with
  | whole => rfl
  | group inner ih => exact ih
  | joinLeft op left right ih => rw [fill, fill, Written.tree, Written.tree, ih]
  | joinRight op left right ih => rw [fill, fill, Written.tree, Written.tree, ih]

theorem nesting_fill_group (p : Place) (w : Written) :
    (p.fill w).nesting ≤ (p.fill (.group w)).nesting := by
  induction p with
  | whole => exact Nat.le_succ _
  | group inner ih => exact Nat.succ_le_succ ih
  | joinLeft op left right ih | joinRight op left right ih =>
    simp only [fill, Written.nesting]
    omega

theorem wellBound_of_fill (p : Place) {w : Written} (h : (p.fill w).WellBound) : w.WellBound := by
  induction p with
  | whole => exact h
  | group inner ih => exact ih h
  | joinLeft op left right ih => exact ih h.2.2.1
  | joinRight op left right ih => exact ih h.2.2.2

end Place

/-- Partners in the tokens of a written expression are a pair of its parentheses. -/
theorem exists_place {w : Written} {before inner after : List Token} (hinner : Balanced inner)
    (h : w.tokens = before ++ .opening :: (inner ++ .closing :: after)) :
    ∃ (p : Place) (v : Written), w = p.fill (.group v) ∧ v.tokens = inner ∧
      p.before = before ∧ p.after = after := by
  induction w generalizing before after with
  | number value =>
    have hmem : Token.opening ∈ (Written.number value).tokens := by simp [h]
    exact absurd hmem (by simp [Written.tokens])
  | group v ih =>
    rcases before with _ | ⟨t, before⟩
    · -- The pair is the outermost one.
      have hrest : v.tokens ++ .closing :: [] = inner ++ .closing :: after := (List.cons.inj h).2
      obtain ⟨hv, hafter⟩ := eq_of_balanced_of_closing v.balanced_tokens hinner hrest
      exact ⟨.whole, v, rfl, hv, rfl, hafter⟩
    · obtain ⟨rfl, hrest⟩ := List.cons.inj h
      rcases List.eq_nil_or_concat after with rfl | ⟨after, t, rfl⟩
      · have hcut : v.tokens = before ++ .opening :: inner := by
          have hend : v.tokens ++ [.closing] = (before ++ .opening :: inner) ++ [.closing] :=
            hrest.trans (by simp)
          exact List.append_cancel_right hend
        have hv := hcut ▸ v.balanced_tokens
        exact (not_balanced_of_opening hv ((List.append_nil inner).symm ▸ hinner)).elim
      · rw [List.concat_eq_append] at hrest ⊢
        have hsplit : v.tokens ++ [.closing] =
            (before ++ .opening :: (inner ++ .closing :: after)) ++ [t] :=
          hrest.trans (by simp)
        obtain ⟨hv, hlast⟩ := List.append_inj' hsplit rfl
        obtain ⟨p, v', rfl, hv', rfl, rfl⟩ := ih hv
        exact ⟨.group p, v', rfl, hv', rfl, by rw [Place.after, hlast]⟩
  | join op left right ihl ihr =>
    rcases List.append_eq_append_iff.mp h with ⟨_ | ⟨t, between⟩, hbefore, hright⟩ |
      ⟨_ | ⟨t, between⟩, hleft, hpair⟩
    · cases hright
    · obtain ⟨rfl, hoperand⟩ := List.cons.inj hright
      obtain ⟨p, v, rfl, hv, rfl, rfl⟩ := ihr hoperand
      exact ⟨.joinRight op left p, v, rfl, hv, hbefore.symm, rfl⟩
    · cases hpair
    · obtain ⟨rfl, hinside⟩ := List.cons.inj hpair
      rcases List.append_eq_append_iff.mp hinside with ⟨_ | ⟨t, more⟩, hbetween, hclosing⟩ |
        ⟨more, hcut, -⟩
      · cases hclosing
      · obtain ⟨rfl, hafter⟩ := List.cons.inj hclosing
        obtain ⟨p, v, rfl, hv, rfl, rfl⟩ := ihl (hbetween ▸ hleft)
        exact ⟨.joinLeft op p right, v, rfl, hv, rfl, hafter.symm⟩
      · have hbalanced := hleft ▸ left.balanced_tokens
        exact (not_balanced_of_opening hbalanced (hcut ▸ hinner)).elim

/-! ## 3. The operators next to a pair -/

/-- The operator that these tokens end with, if they do, binds more loosely than a level. -/
def LooserInFront (level : Nat) (before : List Token) : Prop :=
  ∀ op, before.getLast? = some (.operator op) → op.precedence < level

/-- The operator that these tokens begin with, if they do, binds no more tightly than a
level. -/
def LooserBehind (level : Nat) (after : List Token) : Prop :=
  ∀ op, after.head? = some (.operator op) → op.precedence ≤ level

namespace RedundancyLemmas

variable {level : Nat} {p : Place} {w : Written} {ts more : List Token}

theorem looserInFront_of_append (ts : List Token) (h : LooserInFront level (ts ++ more)) :
    LooserInFront level more := by
  intro op hop
  refine h op ?_
  rw [List.getLast?_append, hop]
  rfl

theorem looserBehind_of_append (h : LooserBehind level (ts ++ more)) : LooserBehind level ts := by
  intro op hop
  refine h op ?_
  rw [List.head?_append, hop]
  rfl

/-- The level of a join is that of its operator, whatever stands inside. -/
theorem level_fill (hp : p ≠ .whole) (v : Written) : (p.fill v).level = (p.fill w).level := by
  cases p with
  | whole => exact absurd rfl hp
  | group | joinLeft | joinRight => rfl

theorem wellBound_fill (h : (p.fill (.group w)).WellBound) (hfront : LooserInFront w.level p.before)
    (hbehind : LooserBehind w.level p.after) : (p.fill w).WellBound := by
  induction p with
  | whole => exact h
  | group inner ih =>
    exact ih h (looserInFront_of_append [.opening] hfront) (looserBehind_of_append hbehind)
  | joinLeft op left right ih =>
    obtain ⟨hleft, hright, hbound, hboundRight⟩ := h
    refine ⟨?_, hright, ih hbound hfront (looserBehind_of_append hbehind), hboundRight⟩
    by_cases hwhole : left = .whole
    · subst hwhole
      exact hbehind op rfl
    · rwa [level_fill hwhole]
  | joinRight op left right ih =>
    obtain ⟨hleft, hright, hboundLeft, hbound⟩ := h
    have hinside : LooserInFront w.level (.operator op :: right.before) :=
      looserInFront_of_append left.tokens hfront
    refine ⟨hleft, ?_, hboundLeft,
      ih hbound (looserInFront_of_append [.operator op] hinside) hbehind⟩
    by_cases hwhole : right = .whole
    · subst hwhole
      exact hinside op rfl
    · rwa [level_fill hwhole]

/-- What stands at the front of a phrase that is held together is held together at least
as tightly. -/
theorem level_le_of_before (hp : p.before = []) (h : (p.fill w).WellBound) :
    (p.fill w).level ≤ w.level := by
  induction p with
  | whole => exact Nat.le_refl _
  | group inner => cases hp
  | joinLeft op left right ih => exact Nat.le_trans h.1 (ih hp h.2.2.1)
  | joinRight op left right => exact absurd hp (by simp [Place.before])

theorem level_le_of_after (hp : p.after = []) (h : (p.fill w).WellBound) :
    (p.fill w).level ≤ w.level := by
  induction p with
  | whole => exact Nat.le_refl _
  | group inner => exact absurd hp (by simp [Place.after])
  | joinLeft op left right => exact absurd hp (by simp [Place.after])
  | joinRight op left right ih => exact Nat.le_trans (Nat.le_of_lt h.2.1) (ih hp h.2.2.2)

theorem looserInFront_of_fill (h : (p.fill w).WellBound) : LooserInFront w.level p.before := by
  induction p with
  | whole => nofun
  | group inner ih =>
    intro op hop
    rw [Place.before, List.getLast?_cons] at hop
    cases hlast : inner.before.getLast? with
    | none => simp [hlast] at hop
    | some t =>
      rw [hlast] at hop
      exact ih h op (hlast.trans hop)
  | joinLeft op left right ih => exact ih h.2.2.1
  | joinRight op left right ih =>
    intro op' hop
    rw [Place.before, List.getLast?_append, List.getLast?_cons, Option.some_or] at hop
    cases hlast : right.before.getLast? with
    | none =>
      rw [hlast] at hop
      cases hop
      have hfront : right.before = [] := List.getLast?_eq_none_iff.mp hlast
      exact Nat.lt_of_lt_of_le h.2.1 (level_le_of_before hfront h.2.2.2)
    | some t =>
      rw [hlast] at hop
      exact ih h.2.2.2 op' (hlast.trans hop)

theorem looserBehind_of_fill (h : (p.fill w).WellBound) : LooserBehind w.level p.after := by
  induction p with
  | whole => nofun
  | group inner ih =>
    intro op hop
    rw [Place.after, List.head?_append] at hop
    cases hhead : inner.after.head? with
    | none => simp [hhead] at hop
    | some t =>
      rw [hhead] at hop
      exact ih h op (hhead.trans hop)
  | joinLeft op left right ih =>
    intro op' hop
    rw [Place.after, List.head?_append] at hop
    cases hhead : left.after.head? with
    | none =>
      rw [hhead] at hop
      cases hop
      have hbehind : left.after = [] := List.head?_eq_none_iff.mp hhead
      exact Nat.le_trans h.1 (level_le_of_after hbehind h.2.2.1)
    | some t =>
      rw [hhead] at hop
      exact ih h.2.2.1 op' (hhead.trans hop)
  | joinRight op left right ih => exact ih h.2.2.2

end RedundancyLemmas

/-- Without a pair of parentheses a written expression stays held together exactly when
the operators next to the pair bind loosely enough for what it holds. -/
theorem wellBound_fill_iff {p : Place} {w : Written} (h : (p.fill (.group w)).WellBound) :
    (p.fill w).WellBound ↔ LooserInFront w.level p.before ∧ LooserBehind w.level p.after :=
  ⟨fun hfill => ⟨looserInFront_of_fill hfill, looserBehind_of_fill hfill⟩,
    fun hloose => wellBound_fill h hloose.1 hloose.2⟩

/-! ## 4. Tokens and tree together -/

namespace RedundancyLemmas

/-- A token that becomes a node of the tree. -/
def isNode : Token → Bool
  | .number _ | .operator _ => true
  | .opening | .closing => false

theorem countP_isNode (w : Written) : w.tokens.countP isNode = w.tree.size := by
  induction w with
  | number value => rfl
  | group inner ih =>
    simp [Written.tokens, Written.tree, List.countP_append, isNode, ih]
  | join op left right ihl ihr =>
    simp only [Written.tokens, Written.tree, Expr.size, List.countP_append, List.countP_cons,
      isNode, if_true, ihl, ihr]
    omega

/-- No tokens that begin with a pair of parentheses around a tree are also those of a join
of that tree. -/
theorem tokens_group_ne_join {inner left right : Written} {op : Operator} {more rest : List Token}
    (htree : inner.tree = .binary op left.tree right.tree)
    (h : (Written.group inner).tokens ++ more = left.tokens ++ rest) : False := by
  have hsize : left.tree.size < inner.tree.size := by
    rw [htree, Expr.size]
    omega
  rw [← countP_isNode, ← countP_isNode] at hsize
  rcases List.append_eq_append_iff.mp h with ⟨behind, hleft, -⟩ | ⟨behind, hgroup, -⟩
  · -- The left operand would hold all of the tree.
    simp only [hleft, Written.tokens, List.countP_append, List.countP_cons] at hsize
    omega
  · rcases List.eq_nil_or_concat behind with rfl | ⟨behind, t, rfl⟩
    · rw [List.append_nil] at hgroup
      rw [← hgroup] at hsize
      simp [Written.tokens, List.countP_append, isNode] at hsize
    · -- The left operand would end inside the parentheses.
      rw [List.concat_eq_append, ← List.append_assoc] at hgroup
      have hinside : .opening :: inner.tokens = left.tokens ++ behind :=
        (List.append_inj' hgroup rfl).1
      have hbalanced := left.balanced_tokens
      rcases hempty : left.tokens with _ | ⟨t', part⟩
      · have hpos : 0 < left.tree.size := by
          cases left.tree <;> simp [Expr.size]
        rw [← countP_isNode, hempty] at hpos
        cases hpos
      · rw [hempty] at hinside hbalanced
        obtain ⟨rfl, hpart⟩ := List.cons.inj hinside
        have hcut : Balanced ([] ++ .opening :: part) := hbalanced
        exact not_balanced_of_opening hcut (hpart ▸ inner.balanced_tokens)

end RedundancyLemmas

/-- Tokens and a tree leave one way only to place parentheses. -/
theorem eq_of_tokens_of_tree {w w' : Written} {more more' : List Token} (htree : w.tree = w'.tree)
    (htokens : w.tokens ++ more = w'.tokens ++ more') : w = w' ∧ more = more' := by
  induction w generalizing w' more more' with
  | number value =>
    cases w' with
    | number value' =>
      cases htree
      exact ⟨rfl, (List.cons.inj htokens).2⟩
    | group inner' => cases (List.cons.inj htokens).1
    | join op left' right' => cases htree
  | group inner ih =>
    cases w' with
    | number value' => cases (List.cons.inj htokens).1
    | group inner' =>
      simp only [Written.tokens, List.cons_append, List.append_assoc, List.cons.injEq,
        true_and] at htokens
      have hinner : inner.tree = inner'.tree := htree
      obtain ⟨rfl, hmore⟩ := ih hinner htokens
      exact ⟨rfl, (List.cons.inj hmore).2⟩
    | join op left' right' =>
      have hinner : inner.tree = .binary op left'.tree right'.tree := htree
      rw [Written.tokens.eq_3, List.append_assoc] at htokens
      exact (tokens_group_ne_join hinner htokens).elim
  | join op left right ihl ihr =>
    cases w' with
    | number value' => cases htree
    | group inner' =>
      have hinner : inner'.tree = .binary op left.tree right.tree := htree.symm
      rw [Written.tokens.eq_3, List.append_assoc] at htokens
      exact (tokens_group_ne_join hinner htokens.symm).elim
    | join op' left' right' =>
      obtain ⟨rfl, hleft, hright⟩ := Expr.binary.inj htree
      simp only [Written.tokens, List.append_assoc, List.cons_append] at htokens
      obtain ⟨rfl, hbehind⟩ := ihl hleft htokens
      obtain ⟨rfl, hmore⟩ := ihr hright (List.cons.inj hbehind).2
      exact ⟨rfl, hmore⟩

/-! ## 5. Operators outside of parentheses -/

/-- The operators among tokens that stand inside `opened` parentheses, as far as they are
outside of all parentheses. -/
def outerOperators : (opened : Nat) → List Token → List Operator
  | _, [] => []
  | opened, .opening :: ts => outerOperators (opened + 1) ts
  | opened, .closing :: ts => outerOperators (opened - 1) ts
  | opened, .operator op :: ts =>
    if opened = 0 then op :: outerOperators opened ts else outerOperators opened ts
  | opened, .number _ :: ts => outerOperators opened ts

/-- The operators outside of the parentheses of a written expression. -/
def Written.outer : Written → List Operator
  | .number _ | .group _ => []
  | .join op left right => left.outer ++ op :: right.outer

namespace RedundancyLemmas

theorem outerOperators_append (w : Written) (opened : Nat) (more : List Token) :
    outerOperators opened (w.tokens ++ more) =
      (if opened = 0 then w.outer else []) ++ outerOperators opened more := by
  induction w generalizing opened more with
  | number value => simp [Written.tokens, Written.outer, outerOperators]
  | group inner ih => simp [Written.tokens, Written.outer, outerOperators, ih]
  | join op left right ihl ihr =>
    simp only [Written.tokens, Written.outer, List.append_assoc, List.cons_append, ihl,
      outerOperators, ihr]
    split <;> simp

theorem outerOperators_tokens (w : Written) : outerOperators 0 w.tokens = w.outer := by
  have h := outerOperators_append w 0 []
  rwa [List.append_nil, outerOperators, List.append_nil] at h

/-- The level of what is held together is the least precedence of its outer operators. -/
theorem level_le_of_mem_outer {w : Written} (h : w.WellBound) :
    ∀ op ∈ w.outer, w.level ≤ op.precedence := by
  induction w with
  | number value => nofun
  | group inner => nofun
  | join op left right ihl ihr =>
    obtain ⟨hleft, hright, hboundLeft, hboundRight⟩ := h
    intro op' hop
    rcases List.mem_append.mp hop with hmem | hmem
    · exact Nat.le_trans hleft (ihl hboundLeft op' hmem)
    · rcases List.mem_cons.mp hmem with rfl | hmem
      · exact Nat.le_refl _
      · exact Nat.le_trans (Nat.le_of_lt hright) (ihr hboundRight op' hmem)

theorem lowest_outer {w : Written} (h : w.WellBound) :
    (w.outer = [] ∧ w.level = Rule.factor.level) ∨
      (w.outer.map Operator.precedence).min? = some w.level := by
  cases w with
  | number value => exact .inl ⟨rfl, rfl⟩
  | group inner => exact .inl ⟨rfl, rfl⟩
  | join op left right =>
    refine .inr (List.min?_eq_some_iff.mpr ⟨?_, ?_⟩)
    · exact List.mem_map.mpr ⟨op, by simp [Written.outer], rfl⟩
    · intro n hn
      obtain ⟨op', hop, rfl⟩ := List.mem_map.mp hn
      exact level_le_of_mem_outer h op' hop

end RedundancyLemmas

/-! ## 6. Reading without a pair -/

/-- The operators that some tokens hold outside of parentheses bind tightly enough for the
tokens around them: there are none, or the lowest precedence among them is above that of
the operator directly in front and not below that of the operator directly behind. -/
def BindsInside (before inner after : List Token) : Prop :=
  outerOperators 0 inner = [] ∨
    ∃ q, ((outerOperators 0 inner).map Operator.precedence).min? = some q ∧
      (∀ op, before.getLast? = some (.operator op) → op.precedence < q) ∧
      ∀ op, after.head? = some (.operator op) → op.precedence ≤ q

namespace RedundancyLemmas

theorem bindsInside_iff {before after : List Token} {w : Written} (h : w.WellBound) :
    BindsInside before w.tokens after ↔
      LooserInFront w.level before ∧ LooserBehind w.level after := by
  rw [BindsInside, outerOperators_tokens]
  rcases lowest_outer h with ⟨hnone, hlevel⟩ | hlowest
  · rw [hnone, hlevel]
    exact iff_of_true (.inl rfl)
      ⟨fun op _ => precedence_lt_factor op, fun op _ => Nat.le_of_lt (precedence_lt_factor op)⟩
  · rw [hlowest]
    constructor
    · rintro (hnone | ⟨q, hq, hloose⟩)
      · rw [hnone] at hlowest
        cases hlowest
      · cases hq
        exact hloose
    · intro hloose
      exact .inr ⟨w.level, rfl, hloose⟩

end RedundancyLemmas

/-- Taking two partners out of tokens that form an expression leaves tokens that form one
under the same limit. The tree stays the same exactly when the operators between the
partners and those next to them allow for it. -/
theorem ofTokens_without_pair {limit : Int} {before inner after : List Token} {tree : Expr}
    (hinner : Balanced inner)
    (h : Expr.ofTokens limit (before ++ .opening :: (inner ++ .closing :: after)) = .ok tree) :
    ∃ tree', Expr.ofTokens limit (before ++ inner ++ after) = .ok tree' ∧
      (tree' = tree ↔ BindsInside before inner after) := by
  obtain ⟨w, hbound, htokens, rfl, hnesting⟩ := ofTokens_eq_ok_iff_written.mp h
  obtain ⟨p, v, rfl, rfl, rfl, rfl⟩ := exists_place hinner htokens
  have hless : ((p.fill v).nesting : Int) ≤ max limit 0 :=
    Int.le_trans (Int.ofNat_le.mpr (p.nesting_fill_group v)) hnesting
  obtain ⟨tree', htree'⟩ := exists_ofTokens_written hless
  rw [p.tokens_fill] at htree'
  have hinside : v.WellBound := p.wellBound_of_fill (w := .group v) hbound
  refine ⟨tree', htree', ?_⟩
  rw [p.tree_fill_group, bindsInside_iff hinside, ← wellBound_fill_iff hbound]
  obtain ⟨w', hbound', htokens', rfl, -⟩ := ofTokens_eq_ok_iff_written.mp htree'
  constructor
  · intro htree
    -- The same tree on the same tokens is written in the same way.
    have hsame : w'.tokens ++ [] = (p.fill v).tokens ++ [] := by
      rw [htokens', p.tokens_fill]
    exact (eq_of_tokens_of_tree htree hsame).1 ▸ hbound'
  · intro hfill
    have hread : Expr.ofTokens limit (p.before ++ v.tokens ++ p.after) = .ok (p.fill v).tree :=
      ofTokens_eq_ok_iff_written.mpr ⟨p.fill v, hfill, p.tokens_fill v, rfl, hless⟩
    exact Except.ok.inj (htree'.symm.trans hread)

/-- In `8 - (2 * (3 + 4)) / 5` the outer parentheses hold a product behind a difference and
in front of a quotient, so they can go. -/
theorem ofTokens_without_pair_product :
    Balanced [.number 2, .operator .mul, .opening, .number 3, .operator .add, .number 4,
      .closing] ∧
    Expr.ofTokens 2 [.number 8, .operator .sub, .opening, .number 2, .operator .mul, .opening,
        .number 3, .operator .add, .number 4, .closing, .closing, .operator .div, .number 5] =
      .ok (.binary .sub (.literal 8) (.binary .div (.binary .mul (.literal 2)
        (.binary .add (.literal 3) (.literal 4))) (.literal 5))) ∧
    Expr.ofTokens 2 [.number 8, .operator .sub, .number 2, .operator .mul, .opening, .number 3,
        .operator .add, .number 4, .closing, .operator .div, .number 5] =
      .ok (.binary .sub (.literal 8) (.binary .div (.binary .mul (.literal 2)
        (.binary .add (.literal 3) (.literal 4))) (.literal 5))) := by
  let product : Written := .join .mul (.number 2) (.group (.join .add (.number 3) (.number 4)))
  let whole : Written := .join .sub (.number 8) (.join .div (.group product) (.number 5))
  have hinner := product.balanced_tokens
  have hread : Expr.ofTokens 2 whole.tokens = .ok whole.tree :=
    ofTokens_eq_ok_iff_written.mpr ⟨whole, by decide, rfl, rfl, by decide⟩
  have hsplit : whole.tokens = [.number 8, .operator .sub] ++
      .opening :: (product.tokens ++ .closing :: [.operator .div, .number 5]) := rfl
  obtain ⟨tree, htree, hsame⟩ := ofTokens_without_pair hinner (hsplit ▸ hread)
  have hbinds : BindsInside [.number 8, .operator .sub] product.tokens
      [.operator .div, .number 5] := by
    refine .inr ⟨2, rfl, ?_, ?_⟩
    · rintro op ⟨⟩
      decide
    · rintro op ⟨⟩
      decide
  obtain rfl := hsame.mpr hbinds
  exact ⟨hinner, hread, htree⟩

end Abacus
