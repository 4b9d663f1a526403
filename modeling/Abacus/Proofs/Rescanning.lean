import Abacus.Proofs.Scanning
import Abacus.Proofs.Traversal

/-!
# Scanning what is written

The text of a token is scanned into that token, whatever stands behind it, as long as a
number is not followed by another digit. So the text of an expression is scanned into
the tokens it is spelled with.

Results:
1. `scanFrom_symbol`, `scanFrom_digits`: one written token comes off the front of a text.
2. `scan_text`: the text of an expression is scanned into its tokens.
-/

namespace Abacus

/-- The tokens that the text of an expression is spelled with. -/
def Expr.spelled : Expr → List Token
  | .literal value => [.number value.toNat]
  | .binary op left right => .opening :: left.spelled ++ .operator op :: right.spelled ++ [.closing]

namespace Token

open ScanningLemmas

/-! ## 1. One token off the front -/

/-- A text does not begin with a digit. -/
def NoDigitFirst (cs : List Char) : Prop := ∀ c ∈ cs.head?, Numeral.isDigit c = false

namespace RescanningLemmas

variable {index : Nat} {c : Char} {cs : List Char} {t : Token}

theorem scanFrom_nil : scanFrom index [] = .ok [] := by
  rw [scanFrom.eq_def]

theorem scanFrom_blank (h : Text.isBlank c = true) :
    scanFrom index (c :: cs) = scanFrom (index + 1) cs := by
  rw [scanFrom.eq_def]
  exact if_pos h

theorem scanFrom_symbol (h : (c, t) ∈ symbols) :
    scanFrom index (c :: cs) = (t :: ·) <$> scanFrom (index + 1) cs := by
  obtain ⟨hblank, hdigit⟩ := class_of_symbol h
  rw [scanFrom.eq_def]
  dsimp only
  rw [if_neg (Bool.eq_false_iff.mp hblank), if_neg (Bool.eq_false_iff.mp hdigit),
    ofChar?_eq_some.mpr h]

theorem scanFrom_digits {n : Nat} (hn : n ≤ maxValue) (hcs : NoDigitFirst cs) :
    scanFrom index (Numeral.digits n ++ cs) =
      (.number n :: ·) <$> scanFrom (index + (Numeral.digits n).length) cs := by
  have hall : ∀ d ∈ Numeral.digits n, Numeral.isDigit d = true :=
    fun d hd => Numeral.isDigit_of_mem_digits hd
  have hvalue := Numeral.value_digits n
  have hne := Numeral.digits_ne_nil n
  -- From here on only that these are digits that denote the number matters.
  generalize Numeral.digits n = run at hall hvalue hne ⊢
  obtain ⟨d, ds, rfl⟩ := List.exists_cons_of_ne_nil hne
  have hd : Numeral.isDigit d = true := hall d List.mem_cons_self
  have hds : ∀ x ∈ ds, Numeral.isDigit x = true := fun x hx => hall x (List.mem_cons_of_mem d hx)
  have hstop : cs.takeWhile Numeral.isDigit = [] ∧ cs.dropWhile Numeral.isDigit = cs := by
    cases cs with
    | nil => exact ⟨rfl, rfl⟩
    | cons x xs => simp [hcs x rfl]
  have htake : (ds ++ cs).takeWhile Numeral.isDigit = ds := by
    rw [List.takeWhile_append_of_pos hds, hstop.1, List.append_nil]
  have hdrop : (ds ++ cs).dropWhile Numeral.isDigit = cs := by
    rw [List.dropWhile_append_of_pos hds, hstop.2]
  have hblank : ¬ Text.isBlank d = true := by
    intro hb
    rw [not_isDigit_of_isBlank hb] at hd
    cases hd
  have hsmall : ¬ exceedsMax (Numeral.significant (d :: ds)) = true := by
    intro hlarge
    have := (exceedsMax_significant hall).mp hlarge
    omega
  rw [List.cons_append, scanFrom.eq_def]
  dsimp only
  rw [if_neg hblank, if_pos hd, htake, hdrop, if_neg hsmall, Numeral.value_significant, hvalue]

end RescanningLemmas

open RescanningLemmas

/-! ## 2. Expressions -/

namespace RescanningLemmas

theorem mem_symbols (op : Operator) : (op.symbol, .operator op) ∈ symbols := by
  cases op <;> decide

theorem noDigitFirst_cons {c : Char} {cs : List Char} (h : Numeral.isDigit c = false) :
    NoDigitFirst (c :: cs) := by
  rintro _ ⟨⟩
  exact h

end RescanningLemmas

theorem scanFrom_spelling (e : Expr) (index : Nat) {cs : List Char} (hcs : NoDigitFirst cs) :
    scanFrom index (e.spelling.toList ++ cs) =
      (e.spelled ++ ·) <$> scanFrom (index + e.spelling.toList.length) cs := by
  induction e generalizing index cs with
  | literal value =>
    rw [Expr.spelling, Numeral.toList_ofNat]
    exact scanFrom_digits (toNat_le_maxValue value) hcs
  | binary op left right ihl ihr =>
    have hspace : Text.isBlank ' ' = true := by decide
    have hbetween : NoDigitFirst
        (' ' :: op.symbol :: ' ' :: (right.spelling.toList ++ ')' :: cs)) :=
      noDigitFirst_cons (by decide)
    have hbehind : NoDigitFirst (')' :: cs) := noDigitFirst_cons (by decide)
    have hchars : (Expr.binary op left right).spelling.toList ++ cs =
        '(' :: (left.spelling.toList ++
          ' ' :: op.symbol :: ' ' :: (right.spelling.toList ++ ')' :: cs)) := by
      simp [Expr.spelling, Operator.text]
    have htokens (ts : List Token) : (Expr.binary op left right).spelled ++ ts =
        .opening :: (left.spelled ++ .operator op :: (right.spelled ++ .closing :: ts)) := by
      simp [Expr.spelled]
    have hindex : index + (Expr.binary op left right).spelling.toList.length =
        index + 1 + left.spelling.toList.length + 1 + 1 + 1 + right.spelling.toList.length + 1 := by
      simp [Expr.spelling, Operator.text]
      omega
    rw [hchars, scanFrom_symbol (t := .opening) (by decide), ihl _ hbetween, scanFrom_blank hspace,
      scanFrom_symbol (mem_symbols op), scanFrom_blank hspace, ihr _ hbehind,
      scanFrom_symbol (t := .closing) (by decide), hindex]
    simp only [Functor.map_map, htokens]

/-- The text of an expression is scanned into the tokens it is spelled with. -/
theorem scan_text (e : Expr) : scan e.text = .ok e.spelled := by
  have hend : NoDigitFirst [] := nofun
  have hscan := scanFrom_spelling e 1 hend
  rw [List.append_nil, scanFrom_nil] at hscan
  rw [scan, Expr.text_eq_spelling, hscan]
  exact congrArg _ (List.append_nil _)

end Token

end Abacus
