import Abacus.Proofs.Stages
import Abacus.Proofs.Traversal
import Abacus.Session.Input

/-!
# Texts and lines

A text is cut into lines at its line feeds, and what is told of a line, its tokens, its
tree, its value or its fault, never breaks one.

Results:
1. `areLines_splitLines`, `splitLines_append`: the lines of a text are all of it, each up
   to its line feed, and what follows a line feed is cut on its own.
2. `splitLines_join`: texts that are written a line each are cut into the same lines.
3. `plain_message`: the message of a fault in a line holds no control character, whatever
   characters the line holds, so that it stays on one line.
-/

namespace Abacus

/-! ## 1. Lines of a text -/

namespace Text

/-- These are the lines of a text: all of it, each up to and with its line feed, and
what stands behind the last one if anything does. -/
inductive AreLines : List Char → List (List Char) → Prop
  | nil : AreLines [] []
  | rest {body : List Char} : body ≠ [] → '\n' ∉ body → AreLines body [body]
  | cons {body cs : List Char} {lines : List (List Char)} : '\n' ∉ body → AreLines cs lines →
      AreLines (body ++ '\n' :: cs) ((body ++ ['\n']) :: lines)

theorem areLines_splitLines (cs : List Char) : AreLines cs (splitLines cs) := by
  induction cs with
  | nil => exact .nil
  | cons c cs ih =>
    rw [splitLines]
    split
    · next hc =>
      rw [hc]
      have hempty : '\n' ∉ ([] : List Char) := List.not_mem_nil
      exact .cons hempty ih
    · next hc =>
      have hcons {body : List Char} (h : '\n' ∉ body) : '\n' ∉ c :: body := by
        rw [List.mem_cons, not_or]
        exact ⟨Ne.symm hc, h⟩
      -- The character joins the line that comes next, if there is one.
      generalize splitLines cs = lines at ih ⊢
      cases ih with
      | nil => exact .rest (List.cons_ne_nil c []) (hcons List.not_mem_nil)
      | rest hne hbody => exact .rest (List.cons_ne_nil c _) (hcons hbody)
      | cons hbody hlines => exact .cons (hcons hbody) hlines

/-- What follows a line feed is cut into lines on its own. -/
theorem splitLines_append {cs : List Char} (h : cs.getLast? = some '\n') (more : List Char) :
    splitLines (cs ++ more) = splitLines cs ++ splitLines more := by
  induction cs with
  | nil => cases h
  | cons c cs ih =>
    rw [List.cons_append, splitLines, splitLines]
    rcases cs with _ | ⟨d, cs⟩
    · obtain rfl : c = '\n' := Option.some.inj h
      rfl
    · rw [List.getLast?_cons_cons] at h
      rw [ih h]
      split
      · rfl
      · cases hlines : splitLines (d :: cs) with
        | cons line lines => rfl
        | nil =>
          have hjoin := flatten_splitLines (d :: cs)
          rw [hlines] at hjoin
          cases hjoin

/-- A text that ends at its only line feed is one line. -/
theorem splitLines_line {cs : List Char} (h : '\n' ∉ cs) :
    splitLines (cs ++ ['\n']) = [cs ++ ['\n']] := by
  induction cs with
  | nil => rfl
  | cons c cs ih =>
    rw [List.mem_cons, not_or] at h
    rw [List.cons_append, splitLines, if_neg (Ne.symm h.1), ih h.2]

end Text

/-! ## 2. What stays on one line -/

/-- A text breaks no line. -/
def OneLine (s : String) : Prop := '\n' ∉ s.toList

/-- A text holds no control character in front of the space. -/
def Plain (s : String) : Prop := ∀ c ∈ s.toList, ' ' ≤ c

theorem Plain.not_mem {s : String} (h : Plain s) {c : Char} (hc : ¬ ' ' ≤ c) : c ∉ s.toList :=
  fun hmem => hc (h c hmem)

theorem Plain.oneLine {s : String} (h : Plain s) : OneLine s := h.not_mem (by decide)

/-- Texts that are written a line each are cut into the same lines. -/
theorem splitLines_join {texts : List String} (h : ∀ text ∈ texts, OneLine text) :
    Text.splitLines (String.join (texts.map (· ++ "\n"))).toList =
      texts.map fun text => (text ++ "\n").toList := by
  induction texts with
  | nil => rfl
  | cons text texts ih =>
    have hline : Text.splitLines (text ++ "\n").toList = [(text ++ "\n").toList] := by
      rw [String.toList_append]
      exact Text.splitLines_line (h text List.mem_cons_self)
    have hend : (text ++ "\n").toList.getLast? = some '\n' := by
      rw [String.toList_append]
      exact List.getLast?_concat
    rw [List.map_cons, String.join_cons, String.toList_append, Text.splitLines_append hend, hline,
      ih fun t ht => h t (List.mem_cons_of_mem text ht)]
    rfl

namespace LinesLemmas

theorem plain_append {s t : String} : Plain (s ++ t) ↔ Plain s ∧ Plain t := by
  rw [Plain, String.toList_append, List.forall_mem_append]
  exact Iff.rfl

theorem plain_ofList {cs : List Char} (h : ∀ c ∈ cs, ' ' ≤ c) : Plain (String.ofList cs) := by
  rw [Plain, String.toList_ofList]
  exact h

theorem plain_literal {cs : List Char} (h : cs.all (' ' ≤ ·) = true) : Plain (String.ofList cs) :=
  plain_ofList fun c hc => of_decide_eq_true (List.all_eq_true.mp h c hc)

theorem plain_quote (s : String) : Plain (Text.quote s) := fun _ => Text.space_le_of_mem_quote

theorem space_le_of_isDigit {c : Char} (h : Numeral.isDigit c = true) : ' ' ≤ c := by
  have hc := Numeral.isDigit_iff.mp h
  exact Char.le_def.mpr (UInt32.le_iff_toNat_le.mpr (Nat.le_trans (by decide) hc.1))

theorem plain_ofNat (n : Nat) : Plain (Numeral.ofNat n) :=
  plain_ofList fun _ h => space_le_of_isDigit (Numeral.isDigit_of_mem_digits h)

theorem plain_ofInt (v : Int) : Plain (Numeral.ofInt v) := by
  cases v with
  | ofNat n => exact plain_ofNat n
  | negSucc n => exact plain_append.mpr ⟨plain_literal (by decide), plain_ofNat (n + 1)⟩

theorem plain_operatorText (op : Operator) : Plain op.text := by
  rw [Operator.text, Plain, String.toList_singleton, List.forall_mem_singleton]
  cases op <;> decide

theorem plain_tokenText (t : Token) : Plain t.text := by
  cases t with
  | number v => exact plain_ofInt v
  | operator op => exact plain_operatorText op
  | opening | closing => exact plain_literal (by decide)

end LinesLemmas

open LinesLemmas

theorem plain_render (ts : List Token) : Plain (Token.render ts) := by
  induction ts using Token.render.induct with
  | case1 => exact plain_literal (by decide)
  | case2 t => exact plain_tokenText t
  | case3 t ts h ih =>
    rw [Token.render]
    · simp only [plain_append, plain_tokenText, ih, true_and, and_true]
      exact plain_literal (by decide)
    · exact h

theorem plain_exprText (e : Expr) : Plain e.text := by
  rw [Expr.text_eq_spelling]
  induction e with
  | literal value => exact plain_ofNat _
  | binary op left right ihl ihr =>
    simp only [Expr.spelling, plain_append, plain_operatorText, ihl, ihr, and_true]
    and_intros <;> exact plain_literal (by decide)

namespace LinesLemmas

theorem plain_scanMessage (fault : Token.ScanFault) : Plain fault.message := by
  obtain ⟨c | _, index⟩ := fault
  · simp only [Token.ScanFault.message, plain_append, plain_quote, plain_ofNat, and_true]
    and_intros <;> exact plain_literal (by decide)
  · simp only [Token.ScanFault.message, plain_append, plain_ofNat, and_true]
    exact plain_literal (by decide)

theorem plain_parseMessage (fault : ParseFault) : Plain fault.message := by
  cases fault with
  | empty | operandMissing | closingMissing => exact plain_literal (by decide)
  | unexpected t position =>
    show Plain ("Unexpected token '" ++ t.text ++ "' at position " ++ Numeral.ofNat position ++
      ", expected a number or '('")
    simp only [plain_append, plain_tokenText, plain_ofNat, and_true]
    and_intros <;> exact plain_literal (by decide)
  | unclosed t position =>
    show Plain ("Expected ')', got '" ++ t.text ++ "' at position " ++ Numeral.ofNat position)
    simp only [plain_append, plain_tokenText, plain_ofNat, and_true]
    and_intros <;> exact plain_literal (by decide)
  | trailing t position =>
    show Plain ("Unexpected trailing token '" ++ t.text ++ "' at position " ++
      Numeral.ofNat position)
    simp only [plain_append, plain_tokenText, plain_ofNat, and_true]
    and_intros <;> exact plain_literal (by decide)
  | tooDeep position limit =>
    show Plain ("Expression nested too deeply at position " ++ Numeral.ofNat position ++
      " (limit is " ++ Numeral.ofInt limit ++ ")")
    simp only [plain_append, plain_ofInt, plain_ofNat, and_true]
    and_intros <;> exact plain_literal (by decide)
  | outOfRange fault =>
    cases fault with
    | negative => exact plain_literal (by decide)
    | tooLarge =>
      show Plain ("Literal exceeds " ++ Numeral.ofNat maxValue)
      simp only [plain_append, plain_ofNat, and_true]
      exact plain_literal (by decide)

theorem plain_arithmeticMessage (fault : ArithmeticFault) : Plain fault.message := by
  cases fault with
  | divisionByZero => exact plain_literal (by decide)
  | overflow op left right =>
    show Plain ("Overflow: " ++ Numeral.ofInt left ++ " " ++ op.text ++ " " ++
      Numeral.ofInt right ++ " exceeds " ++ Numeral.ofNat maxValue)
    simp only [plain_append, plain_ofInt, plain_ofNat, plain_operatorText, and_true]
    and_intros <;> exact plain_literal (by decide)
  | underflow left right =>
    show Plain ("Underflow: " ++ Numeral.ofInt left ++ " - " ++ Numeral.ofInt right ++
      " is negative")
    simp only [plain_append, plain_ofInt, and_true]
    and_intros <;> exact plain_literal (by decide)

end LinesLemmas

/-- The message of a fault in a line holds no control character. -/
theorem plain_message {limit : Int} {line : String} {fault : Calculator.Fault}
    (h : Calculator.trace limit line = .error fault) : Plain fault.message := by
  rcases Calculator.trace_eq_error h with
    ⟨stop, -, rfl⟩ | ⟨ts, stop, -, -, rfl⟩ | ⟨ts, tree, stop, -, -, -, rfl⟩
  · exact plain_scanMessage stop
  · exact plain_parseMessage stop
  · exact plain_arithmeticMessage stop

theorem oneLine_message {limit : Int} {line : String} {fault : Calculator.Fault}
    (h : Calculator.trace limit line = .error fault) : OneLine fault.message :=
  (plain_message h).oneLine

end Abacus
