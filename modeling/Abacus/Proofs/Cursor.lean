import Abacus.Expr.Draft
import Abacus.Proofs.Grammar

/-!
# Reading by position

Reading takes phrases off the front of tokens and hands back the rest. Here the tokens stay
as they are, and a cursor tells how many of them are read and how many parentheses are
open. A cursor can ask for a token that is not there, a number token for a number that it
does not have, a leaf for a number that 64 bits do not hold, and a fault for the words of a
number that is too long to be written. None of these has a result, and each ends the reading
with a breach. The two ways of reading are compared.

Results:
1. `readAt_agrees`, `extendAt_agrees`: a rule reads the same tree and the same tokens from a
   cursor as off the front of the tokens behind it, it leaves as many parentheses open as
   there were, and it stops for the same reason.
2. `ofTokensAt_eq_ofTokens`: so tokens form the same expression, or are refused with the
   same fault. The only breaches are a number out of range and a fault without words.
-/

namespace Abacus

/-! ## 1. Operations without a result -/

/-- An operation that is used where it has no result. -/
inductive Breach where
  /-- Characters are valued that are no digits, or too many. -/
  | numeral
  /-- A token is built of a kind and a value that do not belong together. -/
  | unsuitable (fault : Token.BuildFault)
  /-- A token is taken behind the last one. -/
  | pastEnd
  /-- The number of a number token is missing. -/
  | numberless
  /-- A leaf is made of a number that 64 bits do not hold. -/
  | outOfRange (fault : RangeFault)
  /-- A fault has to tell a number that is too long to be written. -/
  | wording
  /-- Evaluation fails otherwise than in its arithmetic. -/
  | evaluation (fault : EvalFault)
  deriving DecidableEq, Repr

/-- How a stage ends without a result: with a fault of its input, or with a breach. -/
inductive Stop (φ : Type) where
  | fault (fault : φ)
  | breach (breach : Breach)
  deriving DecidableEq, Repr

/-- The numbers that the words of a fault tell, besides a position. A position counts tokens
that are held somewhere, and is never too long. -/
def ParseFault.told : ParseFault → List Int
  | .unexpected t _ | .unclosed t _ | .trailing t _ => t.value?.toList
  | .tooDeep _ limit => [limit]
  | .empty | .operandMissing | .closingMissing | .outOfRange _ => []

/-- Stops with a fault, which is put into words at once. A number out of range is no fault of
the grammar, and a number that is too long to be written cannot be told. -/
def ParseFault.stop : ParseFault → Stop ParseFault
  | .outOfRange fault => .breach (.outOfRange fault)
  | fault => if fault.told.any Numeral.isTooLong then .breach .wording else .fault fault

/-- A fault at a token is one of the grammar. -/
theorem ParseFault.stop_of_isSome {fault : ParseFault} (h : fault.position?.isSome = true) :
    fault.stop = if fault.told.any Numeral.isTooLong then .breach .wording else .fault fault := by
  cases fault with
  | outOfRange range => cases h
  | _ => rfl

/-! ## 2. Cursors -/

/-- Where reading stands: the number of tokens read, and the number of parentheses open. -/
structure Cursor where
  pos : Nat
  depth : Int
  deriving DecidableEq, Repr

namespace Cursor

/-- The cursor in front of all tokens. -/
def start : Cursor := ⟨0, 0⟩

/-- The cursor behind one more token. -/
def next (c : Cursor) : Cursor := { c with pos := c.pos + 1 }

def opened (c : Cursor) : Cursor := { c with depth := c.depth + 1 }

def closed (c : Cursor) : Cursor := { c with depth := c.depth - 1 }

/-- The step of a cursor over the token at a position, which has to be there. -/
structure Step (tokens : List Token) (pos : Nat) : Type where
  pos_lt : pos < tokens.length

/-- Goes over the token at a cursor. -/
def advance (tokens : List Token) (c : Cursor) : Except (Stop ParseFault) (Step tokens c.pos) :=
  if h : c.pos < tokens.length then .ok ⟨h⟩ else .error (.breach .pastEnd)

/-- Goes over the token at a cursor, which has to close a parenthesis. -/
def close (tokens : List Token) (c : Cursor) : Except (Stop ParseFault) (Step tokens c.pos) :=
  match tokens[c.pos]? with
  | none => .error ParseFault.closingMissing.stop
  | some t =>
    if t.kind = .closing then c.advance tokens
    else .error (ParseFault.unclosed t (c.pos + 1)).stop

end Cursor

/-- A phrase read from a position on: its tree, and the cursor behind it. -/
structure Reading (tokens : List Token) (start : Nat) where
  tree : Expr
  cursor : Cursor
  start_lt : start < cursor.pos
  pos_le : cursor.pos ≤ tokens.length

namespace Reading

variable {tokens : List Token} {start : Nat}

/-- A number is one token. -/
def number (c : Cursor) (value : UInt64) (step : Cursor.Step tokens c.pos) :
    Reading tokens c.pos :=
  ⟨.literal value, c.next, Nat.lt_succ_self _, step.pos_lt⟩

/-- A phrase in parentheses, of which the cursor has passed the opening one. -/
def group {c : Cursor} (inner : Reading tokens c.next.opened.pos)
    (last : Cursor.Step tokens inner.cursor.pos) : Reading tokens c.pos where
  tree := inner.tree
  cursor := inner.cursor.next.closed
  start_lt := Nat.lt_trans (Nat.lt_succ_self c.pos) (Nat.lt_succ_of_lt inner.start_lt)
  pos_le := last.pos_lt

/-- A phrase and the operand behind its operator. -/
def join (op : Operator) (left : Reading tokens start)
    (right : Reading tokens left.cursor.next.pos) : Reading tokens start where
  tree := .binary op left.tree right.tree
  cursor := right.cursor
  start_lt := Nat.lt_trans left.start_lt (Nat.lt_of_succ_lt right.start_lt)
  pos_le := right.pos_le

/-- Behind a phrase fewer tokens are left than in front of it. -/
theorem fewer_left (phrase : Reading tokens start) :
    tokens.length - phrase.cursor.pos < tokens.length - start := by
  have := phrase.start_lt
  have := phrase.pos_le
  omega

end Reading

/-! ## 3. Reading from a cursor -/

mutual

/-- Reads a phrase of a rule from a cursor on. -/
def readAt (tokens : List Token) (limit : Int) (rule : Rule) (c : Cursor) :
    Except (Stop ParseFault) (Reading tokens c.pos) :=
  match rule with
  | .factor =>
    match tokens[c.pos]? with
    | none =>
      .error (if tokens.isEmpty then ParseFault.empty else ParseFault.operandMissing).stop
    | some t =>
      match t.kind with
      | .number =>
        match c.advance tokens with
        | .error stop => .error stop
        | .ok step =>
          match t.value? with
          | none => .error (.breach .numberless)
          | some v =>
            match literal? v with
            | .error fault => .error (.breach (.outOfRange fault))
            | .ok value => .ok (.number c value step)
      | .opening =>
        if limit ≤ c.depth then .error (ParseFault.tooDeep (c.pos + 1) limit).stop
        else
          match c.advance tokens with
          | .error stop => .error stop
          | .ok step =>
            have := step.pos_lt
            match readAt tokens limit .expression c.next.opened with
            | .error stop => .error stop
            | .ok inner =>
              match inner.cursor.close tokens with
              | .error stop => .error stop
              | .ok last => .ok (inner.group last)
      | .operator _ | .closing => .error (ParseFault.unexpected t (c.pos + 1)).stop
  | .term =>
    match readAt tokens limit .factor c with
    | .error stop => .error stop
    | .ok first => extendAt tokens limit .term first
  | .expression =>
    match readAt tokens limit .term c with
    | .error stop => .error stop
    | .ok first => extendAt tokens limit .expression first
termination_by (tokens.length - c.pos, rule.rank + 1)
decreasing_by
  · exact Prod.Lex.left _ _ (Nat.sub_succ_lt_self _ _ ‹_›)
  · exact Prod.Lex.right _ (by decide)
  · exact Prod.Lex.left _ _ first.fewer_left
  · exact Prod.Lex.right _ (by decide)
  · exact Prod.Lex.left _ _ first.fewer_left

/-- Extends a phrase of a rule by the operators and operands that follow it. -/
def extendAt (tokens : List Token) (limit : Int) (rule : Rule) {start : Nat}
    (left : Reading tokens start) : Except (Stop ParseFault) (Reading tokens start) :=
  match tokens[left.cursor.pos]? with
  | none => .ok left
  | some t =>
    match t.kind with
    | .operator op =>
      if rule.joins op then
        match left.cursor.advance tokens with
        | .error stop => .error stop
        | .ok step =>
          have := step.pos_lt
          match readAt tokens limit rule.operand left.cursor.next with
          | .error stop => .error stop
          | .ok right => extendAt tokens limit rule (.join op left right)
      else .ok left
    | .number | .opening | .closing => .ok left
termination_by (tokens.length - left.cursor.pos, 0)
decreasing_by
  · exact Prod.Lex.left _ _ (Nat.sub_succ_lt_self _ _ ‹_›)
  · exact Prod.Lex.left _ _ (Nat.lt_trans right.fewer_left (Nat.sub_succ_lt_self _ _ ‹_›))

end

/-- The expression that all of the tokens together form, read by position. -/
def ofTokensAt (limit : Int) (tokens : List Token) : Except (Stop ParseFault) Expr :=
  match readAt tokens limit .expression .start with
  | .error stop => .error stop
  | .ok phrase =>
    match tokens[phrase.cursor.pos]? with
    | none => .ok phrase.tree
    | some t => .error (ParseFault.trailing t (phrase.cursor.pos + 1)).stop

/-! ## 4. Both ways of reading -/

/-- A phrase read by position and a phrase read off the front of the tokens behind the
start agree: they have the same tree and the same tokens behind them, and as many
parentheses are open as the depth tells. What stops one reading stops the other. -/
inductive Agrees (limit : Int) (tokens : List Token) (depth start : Nat) :
    Except (Stop ParseFault) (Reading tokens start) → Except Halt (Expr × List Token) → Prop
  | ok (phrase : Reading tokens start) : phrase.cursor.depth = depth →
      Agrees limit tokens depth start (.ok phrase)
        (.ok (phrase.tree, tokens.drop phrase.cursor.pos))
  | error (halt : Halt) :
      Agrees limit tokens depth start (.error (halt.fault limit tokens).stop) (.error halt)

namespace CursorLemmas

open GrammarLemmas

variable {limit : Int} {tokens rest : List Token} {rule : Rule} {c : Cursor} {t : Token}
  {start : Nat} {left : Reading tokens start}

theorem getElem?_of_drop_nil (h : tokens.drop c.pos = []) : tokens[c.pos]? = none := by
  rw [← List.head?_drop, h]
  rfl

theorem getElem?_of_drop (h : tokens.drop c.pos = t :: rest) : tokens[c.pos]? = some t := by
  rw [← List.head?_drop, h]
  rfl

theorem drop_next (h : tokens.drop c.pos = t :: rest) : tokens.drop c.next.pos = rest := by
  have hnext : c.next.pos = c.pos + 1 := rfl
  rw [hnext, ← List.tail_drop, h]
  rfl

theorem pos_lt_of_drop (h : tokens.drop c.pos = t :: rest) : c.pos < tokens.length :=
  (List.getElem?_eq_some_iff.mp (getElem?_of_drop h)).1

/-- The position of a token, from the number of tokens behind it. -/
theorem position_of_drop (h : tokens.drop c.pos = t :: rest) :
    tokens.length - rest.length = c.pos + 1 := by
  have hlt := pos_lt_of_drop h
  have hnext : c.next.pos = c.pos + 1 := rfl
  rw [← drop_next h, List.length_drop, hnext]
  omega

/-- A cursor can go over a token that is there. -/
theorem advance_eq (step : Cursor.Step tokens c.pos) : c.advance tokens = .ok step :=
  dif_pos step.pos_lt

/-! ### What a rule reads, by the token at the cursor -/

theorem readAt_nil (h : tokens.drop c.pos = []) :
    readAt tokens limit .factor c =
      .error ((Halt.operandWanted []).fault limit tokens).stop := by
  rw [readAt, getElem?_of_drop_nil h, Halt.fault]

theorem readAt_number {v : Int} (h : tokens.drop c.pos = .number v :: rest)
    (step : Cursor.Step tokens c.pos) :
    readAt tokens limit .factor c =
      match literal? v with
      | .error fault => .error (.breach (.outOfRange fault))
      | .ok value => .ok (.number c value step) := by
  rw [readAt, getElem?_of_drop h, advance_eq step]
  rfl

theorem readAt_opening (h : tokens.drop c.pos = .opening :: rest) :
    readAt tokens limit .factor c =
      if limit ≤ c.depth then .error (ParseFault.tooDeep (c.pos + 1) limit).stop
      else
        match readAt tokens limit .expression c.next.opened with
        | .error stop => .error stop
        | .ok inner =>
          match inner.cursor.close tokens with
          | .error stop => .error stop
          | .ok last => .ok (inner.group last) := by
  rw [readAt, getElem?_of_drop h, advance_eq ⟨pos_lt_of_drop h⟩]
  rfl

theorem readAt_noOperand (h : tokens.drop c.pos = t :: rest) (hno : NoOperand (t :: rest)) :
    readAt tokens limit .factor c =
      .error ((Halt.operandWanted (t :: rest)).fault limit tokens).stop := by
  rw [readAt, getElem?_of_drop h, Halt.fault, position_of_drop h]
  cases t with
  | number v => exact absurd rfl (hno.1 v rest)
  | opening => exact absurd rfl (hno.2 rest)
  | operator op => rfl
  | closing => rfl

theorem readAt_chain (h : rule ≠ .factor) :
    readAt tokens limit rule c =
      match readAt tokens limit rule.operand c with
      | .error stop => .error stop
      | .ok first => extendAt tokens limit rule first := by
  cases rule with
  | factor => exact absurd rfl h
  | term => rw [readAt]; rfl
  | expression => rw [readAt]; rfl

theorem extendAt_operator {op : Operator} (h : tokens.drop left.cursor.pos = .operator op :: rest)
    (hop : op ∈ rule.operators) :
    extendAt tokens limit rule left =
      match readAt tokens limit rule.operand left.cursor.next with
      | .error stop => .error stop
      | .ok right => extendAt tokens limit rule (.join op left right) := by
  rw [extendAt, getElem?_of_drop h, advance_eq ⟨pos_lt_of_drop h⟩]
  exact if_pos (joins_eq_true.mpr hop)

theorem extendAt_stop
    (h : ∀ op more, tokens.drop left.cursor.pos = .operator op :: more → op ∉ rule.operators) :
    extendAt tokens limit rule left = .ok left := by
  rw [extendAt]
  cases hdrop : tokens.drop left.cursor.pos with
  | nil => rw [getElem?_of_drop_nil hdrop]
  | cons t rest =>
    rw [getElem?_of_drop hdrop]
    cases t with
    | operator op => exact if_neg fun hjoins => h op rest hdrop (joins_eq_true.mp hjoins)
    | number v => rfl
    | opening => rfl
    | closing => rfl

/-- A cursor goes over a closing parenthesis. -/
theorem close_eq (h : tokens.drop c.pos = .closing :: rest) (step : Cursor.Step tokens c.pos) :
    c.close tokens = .ok step := by
  rw [Cursor.close, getElem?_of_drop h]
  exact advance_eq step

/-- A cursor goes over nothing else in the place of a closing parenthesis. -/
theorem close_eq_error (limit : Int) (h : ∀ more, tokens.drop c.pos ≠ .closing :: more) :
    c.close tokens =
      .error ((Halt.closingWanted (tokens.drop c.pos)).fault limit tokens).stop := by
  rw [Cursor.close]
  cases hdrop : tokens.drop c.pos with
  | nil =>
    rw [getElem?_of_drop_nil hdrop]
    rfl
  | cons t rest =>
    rw [getElem?_of_drop hdrop, Halt.fault, position_of_drop hdrop]
    refine if_neg fun hkind => ?_
    cases t with
    | closing => exact h rest hdrop
    | number v => cases hkind
    | operator op => cases hkind
    | opening => cases hkind

/-- Phrases in parentheses agree if the phrases inside do. -/
theorem agrees_group {depth : Nat}
    {inner : Except (Stop ParseFault) (Reading tokens c.next.opened.pos)}
    {inner' : Except Halt (Expr × List Token)} :
    Agrees limit tokens (depth + 1) c.next.opened.pos inner inner' →
    Agrees limit tokens depth c.pos
      (match inner with
        | .error stop => .error stop
        | .ok inner =>
          match inner.cursor.close tokens with
          | .error stop => .error stop
          | .ok last => .ok (inner.group last))
      (match inner' with
        | .error halt => .error halt
        | .ok (tree, .closing :: after) => .ok (tree, after)
        | .ok (_, after) => .error (.closingWanted after)) := by
  intro h
  cases h with
  | error halt => exact .error halt
  | ok phrase hphrase =>
    by_cases hclosing : ∃ after, tokens.drop phrase.cursor.pos = .closing :: after
    · obtain ⟨after, hdrop⟩ := hclosing
      have last : Cursor.Step tokens phrase.cursor.pos := ⟨pos_lt_of_drop hdrop⟩
      have hafter := drop_next hdrop
      have hdepth : (phrase.group last : Reading tokens c.pos).cursor.depth = depth := by
        show phrase.cursor.depth - 1 = depth
        omega
      dsimp only
      rw [close_eq hdrop last, hdrop]
      exact hafter ▸ .ok (phrase.group last) hdepth
    · have hno : ∀ after, tokens.drop phrase.cursor.pos ≠ .closing :: after :=
        fun after h => hclosing ⟨after, h⟩
      have hclose := close_eq_error limit hno
      dsimp only
      rw [hclose]
      dsimp only
      split
      · next heq => cases heq
      · next heq => exact absurd (Prod.mk.inj (Except.ok.inj heq)).2 (hno _)
      · next heq =>
        obtain ⟨-, rfl⟩ := Prod.mk.inj (Except.ok.inj heq)
        exact .error (.closingWanted _)

end CursorLemmas

open CursorLemmas GrammarLemmas

mutual

/-- A rule reads the same from a cursor as off the front of the tokens behind it. -/
theorem readAt_agrees {limit : Int} {tokens : List Token} {depth : Nat} (rule : Rule) {c : Cursor}
    (hc : c.depth = depth) :
    Agrees limit tokens depth c.pos (readAt tokens limit rule c)
      (rule.read limit depth (tokens.drop c.pos)) := by
  by_cases hrule : rule = .factor
  · subst hrule
    cases hdrop : tokens.drop c.pos with
    | nil =>
      have hno : NoOperand [] := ⟨nofun, nofun⟩
      rw [readAt_nil hdrop, read_noOperand hno]
      exact .error _
    | cons t rest =>
      have hlt := pos_lt_of_drop hdrop
      have hrest := drop_next hdrop
      rcases operand_cases (t :: rest) with ⟨v, more, ⟨⟩⟩ | ⟨more, ⟨⟩⟩ | hno
      · rw [readAt_number hdrop ⟨hlt⟩, read_number]
        cases literal? v with
        | error fault => exact .error (.outOfRange fault)
        | ok value => exact hrest ▸ .ok (.number c value ⟨hlt⟩) hc
      · rw [readAt_opening hdrop, read_opening, hc]
        split
        · rw [← position_of_drop hdrop]
          exact .error (.tooDeep rest)
        · have hopened : c.next.opened.depth = (depth + 1 : Nat) := by
            show c.depth + 1 = _
            rw [hc]
            rfl
          have hinner : Agrees limit tokens (depth + 1) _ _ _ := readAt_agrees .expression hopened
          have hnext : tokens.drop c.next.opened.pos = rest := hrest
          rw [hnext] at hinner
          exact agrees_group hinner
      · rw [readAt_noOperand hdrop hno, read_noOperand hno]
        exact .error _
  · have hrank := rank_operand hrule
    rw [readAt_chain hrule, read_chain hrule]
    have hfirst : Agrees limit tokens depth _ _ _ := readAt_agrees rule.operand hc
    generalize readAt tokens limit rule.operand c = first at hfirst ⊢
    generalize rule.operand.read limit depth (tokens.drop c.pos) = first' at hfirst ⊢
    cases hfirst with
    | error halt => exact .error halt
    | ok phrase hphrase => exact extendAt_agrees phrase hphrase
termination_by (tokens.length - c.pos, rule.rank + 1)
decreasing_by
  · exact Prod.Lex.left _ _ (Nat.sub_succ_lt_self _ _ hlt)
  · exact Prod.Lex.right _ (Nat.succ_lt_succ hrank)
  · exact Prod.Lex.left _ _ phrase.fewer_left

theorem extendAt_agrees {limit : Int} {tokens : List Token} {depth start : Nat} {rule : Rule}
    (left : Reading tokens start) (hleft : left.cursor.depth = depth) :
    Agrees limit tokens depth start (extendAt tokens limit rule left)
      (rule.extend limit depth left.tree (tokens.drop left.cursor.pos)) := by
  by_cases hop : ∃ op more, tokens.drop left.cursor.pos = .operator op :: more ∧ op ∈ rule.operators
  · obtain ⟨op, rest, hdrop, hmem⟩ := hop
    have hlt := pos_lt_of_drop hdrop
    have hrest := drop_next hdrop
    rw [extendAt_operator hdrop hmem, hdrop, extend_operator hmem]
    have hright : Agrees limit tokens depth left.cursor.next.pos _ _ :=
      readAt_agrees rule.operand hleft
    rw [hrest] at hright
    generalize readAt tokens limit rule.operand left.cursor.next = right at hright ⊢
    generalize rule.operand.read limit depth rest = right' at hright ⊢
    cases hright with
    | error halt => exact .error halt
    | ok phrase hphrase => exact extendAt_agrees (.join op left phrase) hphrase
  · have hstop : ∀ op more, tokens.drop left.cursor.pos = .operator op :: more →
        op ∉ rule.operators := fun op more heq hmem => hop ⟨op, more, heq, hmem⟩
    rw [extendAt_stop hstop, extend_stop hstop]
    exact .ok left hleft
termination_by (tokens.length - left.cursor.pos, 0)
decreasing_by
  · exact Prod.Lex.left _ _ (Nat.sub_succ_lt_self _ _ hlt)
  · exact Prod.Lex.left _ _ (Nat.lt_trans phrase.fewer_left (Nat.sub_succ_lt_self _ _ hlt))

end

/-- Tokens form the same expression by position, and the same fault stops both ways of
reading. The only breaches are a number out of range and a fault without words. -/
theorem ofTokensAt_eq_ofTokens (limit : Int) (tokens : List Token) :
    ofTokensAt limit tokens = (Expr.ofTokens limit tokens).mapError ParseFault.stop := by
  have hread : Agrees limit tokens 0 Cursor.start.pos _ _ := readAt_agrees .expression rfl
  have hall : tokens.drop Cursor.start.pos = tokens := rfl
  rw [ofTokensAt, ofTokens_eq_read]
  rw [hall] at hread
  generalize readAt tokens limit .expression .start = whole at hread ⊢
  generalize Rule.expression.read limit 0 tokens = whole' at hread ⊢
  cases hread with
  | error halt => rfl
  | ok phrase _ =>
    dsimp only
    cases hdrop : tokens.drop phrase.cursor.pos with
    | nil =>
      rw [getElem?_of_drop_nil hdrop]
      rfl
    | cons t rest =>
      rw [getElem?_of_drop hdrop, ← position_of_drop hdrop]
      rfl

end Abacus
