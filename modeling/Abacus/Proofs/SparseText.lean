import Abacus.Proofs.Bracketing

/-!
# Text with no more parentheses than needed

An expression can be written without spaces and with parentheses around an operand only
where its operator would otherwise be torn from its own operands. Precedence and grouping
to the left are then enough to read it back.

Results:
1. `scan_written`: the text of a written expression is scanned into its tokens.
2. `mostOpen_written`: the parentheses of the text nest as deep as those it is written with.
3. `parse_written`: the text of a written expression that is held together is read back as
   the tree it shows up to the limit, and refused as nested too deeply beyond it.
4. `parse_sparse`: so is the text of an expression with no more parentheses than needed.
-/

namespace Abacus

/-! ## 1. Texts without spaces -/

/-- The text of a written expression, without spaces. -/
def Written.text : Written → String
  | .number value => Numeral.ofNat value.toNat
  | .group inner => "(" ++ inner.text ++ ")"
  | .join op left right => left.text ++ op.text ++ right.text

/-- How many parentheses are open at most in a text that stands inside `opened` of them. -/
def Text.mostOpen (opened : Nat) : List Char → Nat
  | [] => opened
  | c :: cs =>
    if c = '(' then mostOpen (opened + 1) cs
    else if c = ')' then max opened (mostOpen (opened - 1) cs)
    else mostOpen opened cs

namespace Token

open ScanningLemmas RescanningLemmas

theorem scanFrom_written (w : Written) (index : Nat) {cs : List Char} (hcs : NoDigitFirst cs) :
    scanFrom index (w.text.toList ++ cs) =
      (w.tokens ++ ·) <$> scanFrom (index + w.text.toList.length) cs := by
  induction w generalizing index cs with
  | number value =>
    rw [Written.text, Numeral.toList_ofNat]
    exact scanFrom_digits (toNat_le_maxValue value) hcs
  | group inner ih =>
    have hclosing : NoDigitFirst (')' :: cs) := noDigitFirst_cons (by decide)
    have hchars : (Written.group inner).text.toList ++ cs =
        '(' :: (inner.text.toList ++ ')' :: cs) := by
      simp [Written.text]
    have htokens (ts : List Token) : (Written.group inner).tokens ++ ts =
        .opening :: (inner.tokens ++ .closing :: ts) := by
      simp [Written.tokens]
    have hindex : index + (Written.group inner).text.toList.length =
        index + 1 + inner.text.toList.length + 1 := by
      simp [Written.text]
      omega
    rw [hchars, scanFrom_symbol (t := .opening) (by decide), ih _ hclosing,
      scanFrom_symbol (t := .closing) (by decide), hindex]
    simp only [Functor.map_map, htokens]
  | join op left right ihl ihr =>
    have hoperator : NoDigitFirst (op.symbol :: (right.text.toList ++ cs)) :=
      noDigitFirst_cons (class_of_symbol (mem_symbols op)).2
    have hchars : (Written.join op left right).text.toList ++ cs =
        left.text.toList ++ op.symbol :: (right.text.toList ++ cs) := by
      simp [Written.text, Operator.text]
    have htokens (ts : List Token) : (Written.join op left right).tokens ++ ts =
        left.tokens ++ .operator op :: (right.tokens ++ ts) := by
      simp [Written.tokens]
    have hindex : index + (Written.join op left right).text.toList.length =
        index + left.text.toList.length + 1 + right.text.toList.length := by
      simp [Written.text, Operator.text]
      omega
    rw [hchars, ihl _ hoperator, scanFrom_symbol (mem_symbols op), ihr _ hcs, hindex]
    simp only [Functor.map_map, htokens]

/-- The text of a written expression is scanned into its tokens. -/
theorem scan_written (w : Written) : scan w.text = .ok w.tokens := by
  have hend : NoDigitFirst [] := nofun
  have hscan := scanFrom_written w 1 hend
  rw [List.append_nil, scanFrom_nil] at hscan
  rw [scan, hscan]
  exact congrArg _ (List.append_nil _)

end Token

/-! ## 2. How deep the parentheses nest -/

namespace SparseTextLemmas

open Text

theorem le_mostOpen (opened : Nat) (cs : List Char) : opened ≤ mostOpen opened cs := by
  induction cs generalizing opened with
  | nil => exact Nat.le_refl _
  | cons c cs ih =>
    rw [mostOpen]
    split
    · exact Nat.le_of_succ_le (ih (opened + 1))
    · split
      · exact Nat.le_max_left _ _
      · exact ih opened

theorem mostOpen_append_of_ne {opened : Nat} {part cs : List Char}
    (h : ∀ c ∈ part, c ≠ '(' ∧ c ≠ ')') : mostOpen opened (part ++ cs) = mostOpen opened cs := by
  induction part with
  | nil => rfl
  | cons c part ih =>
    obtain ⟨hopening, hclosing⟩ := h c List.mem_cons_self
    rw [List.cons_append, mostOpen, if_neg hopening, if_neg hclosing]
    exact ih fun d hd => h d (List.mem_cons_of_mem c hd)

theorem ne_parenthesis_of_isDigit {c : Char} (h : Numeral.isDigit c = true) :
    c ≠ '(' ∧ c ≠ ')' := by
  constructor
  · rintro rfl
    exact absurd h (by decide)
  · rintro rfl
    exact absurd h (by decide)

theorem ne_parenthesis_of_symbol (op : Operator) : op.symbol ≠ '(' ∧ op.symbol ≠ ')' := by
  cases op <;> decide

theorem mostOpen_append (w : Written) (opened : Nat) (cs : List Char) :
    mostOpen opened (w.text.toList ++ cs) = max (opened + w.nesting) (mostOpen opened cs) := by
  induction w generalizing opened cs with
  | number value =>
    rw [Written.text, Numeral.toList_ofNat, mostOpen_append_of_ne fun c hc =>
      ne_parenthesis_of_isDigit (Numeral.isDigit_of_mem_digits hc)]
    exact (Nat.max_eq_right (le_mostOpen opened cs)).symm
  | group inner ih =>
    have hchars : (Written.group inner).text.toList ++ cs =
        '(' :: (inner.text.toList ++ ')' :: cs) := by
      simp [Written.text]
    have hbehind : mostOpen (opened + 1) (')' :: cs) = max (opened + 1) (mostOpen opened cs) := rfl
    rw [hchars, mostOpen, if_pos rfl, ih, hbehind, Written.nesting]
    omega
  | join op left right ihl ihr =>
    have hchars : (Written.join op left right).text.toList ++ cs =
        left.text.toList ++ ([op.symbol] ++ (right.text.toList ++ cs)) := by
      simp [Written.text, Operator.text]
    have hsymbol : ∀ c ∈ [op.symbol], c ≠ '(' ∧ c ≠ ')' := by
      intro c hc
      rw [List.mem_singleton.mp hc]
      exact ne_parenthesis_of_symbol op
    rw [hchars, ihl, mostOpen_append_of_ne hsymbol, ihr, Written.nesting]
    omega

end SparseTextLemmas

open SparseTextLemmas BracketingLemmas

/-- The parentheses of a text nest as deep as those of the expression that is written. -/
theorem mostOpen_written (w : Written) : Text.mostOpen 0 w.text.toList = w.nesting := by
  have h := mostOpen_append w 0 []
  rw [List.append_nil, Text.mostOpen] at h
  omega

/-! ## 3. Reading the text -/

/-- The text of a written expression that is held together is read back as the tree it
shows when its parentheses nest within the limit, and is refused as nested too deeply when
they do not. -/
theorem parse_written {w : Written} (h : w.WellBound) (limit : Int) :
    ((Text.mostOpen 0 w.text.toList : Int) ≤ max limit 0 →
      Calculator.parse limit w.text = .ok w.tree) ∧
    (max limit 0 < (Text.mostOpen 0 w.text.toList : Int) →
      ∃ position, Calculator.parse limit w.text = .error (.parse (.tooDeep position limit))) := by
  obtain ⟨d, hspells⟩ := exists_derivation h (expression_level_le w)
  have hparse : Calculator.parse limit w.text = (Expr.ofTokens limit d.tokens).mapError .parse := by
    rw [Calculator.parse, Calculator.scan, Token.scan_written, hspells.tokens]
    rfl
  obtain ⟨hok, hdeep⟩ := ofTokens_derivation limit d
  rw [mostOpen_written, ← hspells.nesting, hparse, ← hspells.tree]
  constructor
  · intro hnesting
    rw [hok hnesting]
    rfl
  · intro hnesting
    obtain ⟨position, hposition⟩ := hdeep hnesting
    exact ⟨position, by rw [hposition]; rfl⟩

/-! ## 4. No more parentheses than needed -/

/-- How tightly an expression is held together by the operator at its root, if it has one. -/
def Expr.level : Expr → Nat
  | .literal _ => Rule.factor.level
  | .binary op _ _ => op.precedence

/-- Puts parentheses around a written expression if they are needed. -/
def Written.groupIf (needed : Bool) (w : Written) : Written := if needed then .group w else w

/-- An expression written with parentheses around a left operand only when its operator
binds less tightly than the one above it, and around a right operand only when its operator
binds no more tightly than the one above it. -/
def Expr.sparse : Expr → Written
  | .literal value => .number value
  | .binary op left right =>
    .join op (.groupIf (left.level < op.precedence) left.sparse)
      (.groupIf (right.level ≤ op.precedence) right.sparse)

namespace SparseTextLemmas

theorem tree_groupIf (needed : Bool) (w : Written) : (Written.groupIf needed w).tree = w.tree := by
  cases needed <;> rfl

theorem wellBound_groupIf {needed : Bool} {w : Written} (h : w.WellBound) :
    (Written.groupIf needed w).WellBound := by
  cases needed <;> exact h

theorem level_groupIf (needed : Bool) (w : Written) :
    (Written.groupIf needed w).level = if needed then Rule.factor.level else w.level := by
  cases needed <;> rfl

end SparseTextLemmas

namespace Expr

theorem level_sparse (e : Expr) : e.sparse.level = e.level := by
  cases e <;> rfl

theorem tree_sparse (e : Expr) : e.sparse.tree = e := by
  induction e with
  | literal value => rfl
  | binary op left right ihl ihr =>
    rw [sparse, Written.tree, tree_groupIf, tree_groupIf, ihl, ihr]

theorem wellBound_sparse (e : Expr) : e.sparse.WellBound := by
  induction e with
  | literal value => trivial
  | binary op left right ihl ihr =>
    refine ⟨?_, ?_, wellBound_groupIf ihl, wellBound_groupIf ihr⟩
    · have := precedence_lt_factor op
      simp only [level_groupIf, level_sparse, decide_eq_true_eq]
      split <;> omega
    · have := precedence_lt_factor op
      simp only [level_groupIf, level_sparse, decide_eq_true_eq]
      split <;> omega

end Expr

/-- The text of an expression with no more parentheses than precedence requires is read
back as that expression under every limit that its parentheses keep to, and refused as
nested too deeply under every other. -/
theorem parse_sparse (e : Expr) (limit : Int) :
    ((Text.mostOpen 0 e.sparse.text.toList : Int) ≤ max limit 0 →
      Calculator.parse limit e.sparse.text = .ok e) ∧
    (max limit 0 < (Text.mostOpen 0 e.sparse.text.toList : Int) →
      ∃ position,
        Calculator.parse limit e.sparse.text = .error (.parse (.tooDeep position limit))) := by
  have h := parse_written e.wellBound_sparse limit
  rwa [e.tree_sparse] at h

end Abacus
