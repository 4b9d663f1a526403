import Abacus.Proofs.Cursor
import Abacus.Proofs.Nesting

/-!
# Calls while tokens are read

Reading by position calls the rules of the grammar at cursors. Here the calls of a whole
reading are followed, with what each finds at its cursor and what it returns.

Results:
1. `readAt_ok`, `exists_readAt_eq_ok`: what a call returns, in terms of derivations, and when
   it returns it.
2. `Called.counts`: at every call the cursor tells how many of the parentheses read so far
   are unmatched, and these are no more than the limit allows.
3. `called_returns`: what a call returns is a longest phrase of its rule, the parentheses
   open are those open before, and no token behind the next one matters.
-/

namespace Abacus

/-! ## 1. Calls -/

section

variable (tokens : List Token) (limit : Int)

/-- Called at a cursor, the loop of a rule gets to a phrase: the first operand, or a phrase
it has got to with one more operator and operand behind it. -/
inductive GetsTo (rule : Rule) (c : Cursor) : Reading tokens c.pos → Prop
  | first {first : Reading tokens c.pos} : rule ≠ .factor →
      readAt tokens limit rule.operand c = .ok first → GetsTo rule c first
  | next {left : Reading tokens c.pos} {op : Operator}
      {right : Reading tokens left.cursor.next.pos} : GetsTo rule c left →
      tokens[left.cursor.pos]? = some (.operator op) → rule.joins op = true →
      readAt tokens limit rule.operand left.cursor.next = .ok right →
      GetsTo rule c (.join op left right)

/-- The calls of rules, each at its cursor, while all of the tokens are read: that of the
whole expression, and for each call those of its operands or of the expression between its
parentheses. -/
inductive Called : Rule → Cursor → Prop
  | start : Called .expression .start
  | operand {rule : Rule} {c : Cursor} : Called rule c → rule ≠ .factor → Called rule.operand c
  | next {rule : Rule} {c : Cursor} {left : Reading tokens c.pos} {op : Operator} :
      Called rule c → GetsTo tokens limit rule c left →
      tokens[left.cursor.pos]? = some (.operator op) → rule.joins op = true →
      Called rule.operand left.cursor.next
  | inner {c : Cursor} : Called .factor c → tokens[c.pos]? = some .opening → ¬ limit ≤ c.depth →
      Called .expression c.next.opened

end

/-- The operators that a phrase of a rule goes on with, also inside its last operand. -/
def Rule.goesOn : Rule → List Operator
  | .expression => [.add, .sub, .mul, .div]
  | .term => [.mul, .div]
  | .factor => []

/-! ## 2. What a call returns -/

namespace CallsLemmas

open GrammarLemmas CursorLemmas

variable {tokens others : List Token} {limit : Int} {rule : Rule} {c : Cursor} {depth : Nat}

/-- Behind a derived phrase as many parentheses are open as in front of it. -/
theorem foldl_opensAfter_derivation (opened : Nat) (d : Derivation rule) :
    d.tokens.foldl Token.opensAfter opened = opened := by
  -- A pass over the phrase counts them, too, under a limit that leaves room for it.
  have hnests : Nests (opened + d.nesting) opened d.nesting := .inr (Int.le_refl _)
  have hrun : Outlook.run (opened + d.nesting) 1 ⟨true, opened⟩ d.tokens = .ok ⟨false, opened⟩ :=
    OutlookLemmas.run_derivation d hnests
  exact (NestingLemmas.opened_of_run hrun).1.symm

theorem unmatched_take {t : Token} {i : Nat} (h : tokens[i]? = some t) :
    unmatched (tokens.take (i + 1)) = Token.opensAfter (unmatched (tokens.take i)) t := by
  rw [List.take_add_one, h, unmatched, List.foldl_append]
  rfl

/-- A phrase that has been read is derived by its rule, stays within the limit and cannot go
on. -/
theorem readAt_ok {phrase : Reading tokens c.pos} (hc : c.depth = depth)
    (h : readAt tokens limit rule c = .ok phrase) :
    phrase.cursor.depth = depth ∧
    ∃ d : Derivation rule, d.tree = phrase.tree ∧ Nests limit depth d.nesting ∧
      rule.StopsAt (tokens.drop phrase.cursor.pos) ∧
      tokens.take phrase.cursor.pos = tokens.take c.pos ++ d.tokens := by
  have hagrees : Agrees limit tokens depth _ _ _ := readAt_agrees rule hc
  rw [h] at hagrees
  cases hread : rule.read limit depth (tokens.drop c.pos) with
  | error halt =>
    rw [hread] at hagrees
    cases hagrees
  | ok result =>
    rw [hread] at hagrees
    cases hagrees with
    | ok _ hdepth =>
      obtain ⟨d, hd, htree, hnests, hstops⟩ := read_sound hread
      refine ⟨hdepth, d, htree, hnests, hstops, ?_⟩
      have hstart := phrase.start_lt
      have hstop := phrase.pos_le
      have hlength : phrase.cursor.pos = c.pos + d.tokens.length := by
        have := congrArg List.length hd
        rw [List.length_append, List.length_drop, List.length_drop] at this
        omega
      rw [hlength, List.take_add, ← hd, List.take_left]

/-- A derived phrase at a cursor is read if it stays within the limit and cannot go on. -/
theorem exists_readAt_eq_ok {stop : Nat} (d : Derivation rule) (hc : c.depth = depth)
    (hstop : stop ≤ tokens.length) (htokens : tokens.take stop = tokens.take c.pos ++ d.tokens)
    (hnests : Nests limit depth d.nesting) (hstops : rule.StopsAt (tokens.drop stop)) :
    ∃ phrase, readAt tokens limit rule c = .ok phrase ∧ phrase.tree = d.tree ∧
      phrase.cursor = ⟨stop, depth⟩ := by
  have hdrop : tokens.drop c.pos = d.tokens ++ tokens.drop stop := by
    have hall : tokens.take c.pos ++ tokens.drop c.pos =
        tokens.take c.pos ++ (d.tokens ++ tokens.drop stop) := by
      rw [List.take_append_drop, ← List.append_assoc, ← htokens, List.take_append_drop]
    exact List.append_cancel_left hall
  have hagrees : Agrees limit tokens depth _ _ _ := readAt_agrees rule hc
  rw [hdrop, read_complete d hnests hstops] at hagrees
  generalize readAt tokens limit rule c = result at hagrees
  generalize d.tree = tree, hrest : tokens.drop stop = rest at hagrees ⊢
  cases hagrees with
  | ok phrase hdepth =>
    refine ⟨phrase, rfl, rfl, ?_⟩
    have hpos : phrase.cursor.pos = stop := by
      have hle := phrase.pos_le
      have hlength := congrArg List.length hrest
      rw [List.length_drop, List.length_drop] at hlength
      omega
    rw [← hpos, ← hdepth]

/-! ### What the cursor of a call counts -/

/-- The depth of a cursor is the number of unmatched parentheses among the tokens in front
of it. -/
def Counts (tokens : List Token) (c : Cursor) : Prop := c.depth = unmatched (tokens.take c.pos)

theorem counts_start : Counts tokens .start := rfl

theorem Counts.next {op : Operator} (h : Counts tokens c)
    (ht : tokens[c.pos]? = some (.operator op)) : Counts tokens c.next := by
  show c.depth = unmatched (tokens.take (c.pos + 1))
  rw [unmatched_take ht, h]
  rfl

theorem Counts.opened (h : Counts tokens c) (ht : tokens[c.pos]? = some .opening) :
    Counts tokens c.next.opened := by
  show c.depth + 1 = unmatched (tokens.take (c.pos + 1))
  rw [unmatched_take ht, h]
  rfl

theorem Counts.of_readAt {phrase : Reading tokens c.pos} (h : Counts tokens c)
    (hread : readAt tokens limit rule c = .ok phrase) :
    phrase.cursor.depth = c.depth ∧ Counts tokens phrase.cursor := by
  obtain ⟨hdepth, d, -, -, -, htokens⟩ := readAt_ok h hread
  refine ⟨hdepth.trans h.symm, ?_⟩
  rw [Counts, hdepth, htokens, unmatched, unmatched, List.foldl_append,
    foldl_opensAfter_derivation]

theorem Counts.of_getsTo {phrase : Reading tokens c.pos} (h : Counts tokens c)
    (hphrase : GetsTo tokens limit rule c phrase) :
    phrase.cursor.depth = c.depth ∧ Counts tokens phrase.cursor := by
  induction hphrase with
  | first _ hread => exact h.of_readAt hread
  | next _ hop _ hread ih =>
    obtain ⟨hdepth, hcounts⟩ := ih
    obtain ⟨hdepth', hcounts'⟩ := (hcounts.next hop).of_readAt hread
    exact ⟨hdepth'.trans hdepth, hcounts'⟩

end CallsLemmas

open CallsLemmas

/-- At every call the cursor counts the unmatched parentheses, and there are no more of them
than the limit allows. -/
theorem Called.counts {tokens : List Token} {limit : Int} {rule : Rule} {c : Cursor}
    (h : Called tokens limit rule c) : Counts tokens c ∧ c.depth ≤ max limit 0 := by
  induction h with
  | start => exact ⟨counts_start, Int.le_max_right limit 0⟩
  | operand _ _ ih => exact ih
  | next _ hleft hop _ ih =>
    obtain ⟨hcounts, hle⟩ := ih
    obtain ⟨hdepth, hcounts'⟩ := hcounts.of_getsTo hleft
    exact ⟨hcounts'.next hop, hdepth ▸ hle⟩
  | @inner c _ hopening hlimit ih =>
    refine ⟨ih.1.opened hopening, ?_⟩
    show c.depth + 1 ≤ max limit 0
    omega

/-! ## 3. Every call -/

namespace CallsLemmas

variable {tokens others : List Token} {rule : Rule} {stop : Nat}

/-- Whether a phrase stops is told by the next token. -/
theorem stopsAt_drop_iff : rule.StopsAt (tokens.drop stop) ↔
    ∀ op, tokens[stop]? = some (.operator op) →
      op ∉ rule.operators ∧ op ∉ rule.operand.operators := by
  constructor
  · intro h op htoken
    obtain ⟨hlt, htoken⟩ := List.getElem?_eq_some_iff.mp htoken
    have hdrop := List.drop_eq_getElem_cons hlt
    rw [htoken] at hdrop
    exact h op _ hdrop
  · intro h op more hdrop
    refine h op ?_
    rw [← List.head?_drop, hdrop]
    rfl

/-- A phrase that stops stops in front of a token that is none of its operators. -/
theorem not_goesOn (h : rule.StopsAt (tokens.drop stop)) {op : Operator} (hop : op ∈ rule.goesOn) :
    tokens[stop]? ≠ some (.operator op) := by
  intro htoken
  obtain ⟨hrule, hoperand⟩ := stopsAt_drop_iff.mp h op htoken
  revert hop hrule hoperand
  cases rule <;> cases op <;> decide

theorem take_of_agree (h : ∀ i ≤ stop, others[i]? = tokens[i]?) {start : Nat}
    (hstart : start ≤ stop) : others.take start = tokens.take start := by
  refine List.ext_getElem? fun i => ?_
  rw [List.getElem?_take, List.getElem?_take]
  split
  · next hi => exact h i (Nat.le_trans (Nat.le_of_lt hi) hstart)
  · rfl

end CallsLemmas

/-- At every call of a rule while tokens are read, the depth of the cursor is the number of
unmatched parentheses among the tokens read so far, and at most the limit. If the call
returns a phrase, then the depth is what it was, the cursor has moved on within the tokens,
the tokens it has passed are derived by the rule and the derivation denotes the tree, and the
next token is no operator that the rule goes on with. The call returns the same on all
other tokens that are the same up to and with the next one, or end there, too. -/
theorem called_returns {tokens : List Token} {limit : Int} {rule : Rule} {c : Cursor}
    (h : Called tokens limit rule c) :
    c.depth = unmatched (tokens.take c.pos) ∧ c.depth ≤ max limit 0 ∧
    ∀ phrase, readAt tokens limit rule c = .ok phrase →
      phrase.cursor.depth = c.depth ∧
      c.pos < phrase.cursor.pos ∧ phrase.cursor.pos ≤ tokens.length ∧
      (∃ d : Derivation rule,
        d.tokens = (tokens.take phrase.cursor.pos).drop c.pos ∧ d.tree = phrase.tree) ∧
      (∀ op ∈ rule.goesOn, tokens[phrase.cursor.pos]? ≠ some (.operator op)) ∧
      ∀ others : List Token, (∀ i ≤ phrase.cursor.pos, others[i]? = tokens[i]?) →
        ∃ phrase', readAt others limit rule c = .ok phrase' ∧
          phrase'.tree = phrase.tree ∧ phrase'.cursor = phrase.cursor := by
  obtain ⟨hcounts, hlimit⟩ := h.counts
  refine ⟨hcounts, hlimit, fun phrase hread => ?_⟩
  obtain ⟨hdepth, d, htree, hnests, hstops, htokens⟩ := readAt_ok hcounts hread
  have hstart := phrase.start_lt
  have hstop := phrase.pos_le
  refine ⟨hdepth.trans hcounts.symm, hstart, hstop, ⟨d, ?_, htree⟩, fun op => not_goesOn hstops,
    fun others hagree => ?_⟩
  · have hlength : (tokens.take c.pos).length = c.pos := by
      rw [List.length_take]
      omega
    rw [htokens, List.drop_left' hlength]
  · have hothers := take_of_agree hagree (Nat.le_refl _)
    have hbefore := take_of_agree hagree (Nat.le_of_lt hstart)
    have hroom : phrase.cursor.pos ≤ others.length := by
      have := congrArg List.length hothers
      rw [List.length_take, List.length_take] at this
      omega
    have hstops' : rule.StopsAt (others.drop phrase.cursor.pos) := by
      rw [stopsAt_drop_iff, hagree _ (Nat.le_refl _)]
      exact stopsAt_drop_iff.mp hstops
    obtain ⟨phrase', hread', htree', hcursor'⟩ := exists_readAt_eq_ok d hcounts hroom
      (by rw [hothers, hbefore, htokens]) hnests hstops'
    refine ⟨phrase', hread', htree'.trans htree, ?_⟩
    rw [hcursor', ← hdepth]

/-- Between the parentheses of `(1 + 2) * 3` the rule of expressions is called with one
parenthesis open. It returns a sum in front of the closing one, whatever stands behind that. -/
theorem called_returns_inside :
    let tokens : List Token := [.opening, .number 1, .operator .add, .number 2, .closing,
      .operator .mul, .number 3]
    let sum : Expr := .binary .add (.literal 1) (.literal 2)
    Called tokens 1 .expression ⟨1, 1⟩ ∧ unmatched (tokens.take 1) = 1 ∧
    (∃ phrase, readAt tokens 1 .expression ⟨1, 1⟩ = .ok phrase ∧ phrase.tree = sum ∧
      phrase.cursor = ⟨4, 1⟩) ∧
    ∀ more, ∃ phrase, readAt (tokens.take 5 ++ more) 1 .expression ⟨1, 1⟩ = .ok phrase ∧
      phrase.tree = sum ∧ phrase.cursor = ⟨4, 1⟩ := by
  intro tokens sum
  have hterm : Called tokens 1 .term .start := .operand .start (by decide)
  have hfactor : Called tokens 1 .factor .start := .operand hterm (by decide)
  have hcalled : Called tokens 1 .expression ⟨1, 1⟩ := .inner hfactor rfl (by decide)
  let d : Derivation .expression := .chain (by decide) (.chain (by decide) (.number 1) .nil)
    (.cons .add (by decide) (.chain (by decide) (.number 2) .nil) .nil)
  have hstops : Rule.StopsAt .expression (tokens.drop 4) := nofun
  obtain ⟨phrase, hphrase, htree, hcursor⟩ : ∃ phrase, readAt tokens 1 .expression ⟨1, 1⟩ =
      .ok phrase ∧ phrase.tree = sum ∧ phrase.cursor = ⟨4, 1⟩ :=
    exists_readAt_eq_ok d rfl (by decide) rfl (.inl rfl) hstops
  obtain ⟨hcounts, -, hreturns⟩ := called_returns hcalled
  obtain ⟨-, -, -, -, -, hlocal⟩ := hreturns phrase hphrase
  refine ⟨hcalled, (Int.ofNat.inj hcounts).symm, ⟨phrase, hphrase, htree, hcursor⟩,
    fun more => ?_⟩
  have hagree : ∀ i ≤ phrase.cursor.pos, (tokens.take 5 ++ more)[i]? = tokens[i]? := by
    intro i hi
    rw [hcursor] at hi
    have hlt : i < 5 := Nat.lt_succ_of_le hi
    rw [List.getElem?_append_left hlt, List.getElem?_take_of_lt hlt]
  obtain ⟨phrase', hread', htree', hcursor'⟩ := hlocal _ hagree
  exact ⟨phrase', hread', htree'.trans htree, hcursor'.trans hcursor⟩

end Abacus
