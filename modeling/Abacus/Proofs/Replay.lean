import Abacus.Proofs.Concatenation
import Abacus.Proofs.Refusal
import Abacus.Proofs.RoundTrip
import Abacus.Proofs.Transcript

/-!
# Feeding a session its own output

Everything that a session writes on standard output is itself a line with a value, once the
word that introduces tokens or a tree is taken away. So a session can be fed what another
one wrote, and answers with the values of that one.

Results:
1. `output_run`: what a session without a prompt writes on standard output, told by its
   calculations.
2. `value_of_recalled`: the tokens, the tree and the value of a line are lines with the same
   value.
3. `run_replay`: a silent session on the output of another repeats every value of it, once
   for each line that told of it.
-/

namespace Abacus.Session

open Calculator LinesLemmas TranscriptLemmas

/-! ## 1. What a session tells on standard output -/

/-- The calculations of a session: what the lines in front of the exit command come to, as
far as they have values. -/
def calculations (s : Settings) (input : Input) : List Calculation :=
  (input.lines.takeWhile fun line => !isExit line).filterMap fun line =>
    (trace s.maxDepth line).toOption

variable {s : Settings}

namespace ReplayLemmas

theorem output_blocks (s : Settings) (lines : List String) :
    output (lines.flatMap (block s)) =
      String.join (((lines.filterMap fun line => (trace s.maxDepth line).toOption).flatMap
        (told s)).map (· ++ "\n")) := by
  induction lines with
  | nil => rfl
  | cons line lines ih =>
    rw [List.flatMap_cons, output_append, ih, List.filterMap_cons]
    cases h : trace s.maxDepth line with
    | error fault =>
      rw [block_of_fault h]
      exact String.empty_append
    | ok c =>
      have hblock : output (block s line) = String.join ((told s c).map (· ++ "\n")) := by
        rw [block_of_value h, ← output_out, List.map_map]
        rfl
      rw [hblock]
      show _ = String.join (((c :: _).flatMap (told s)).map (· ++ "\n"))
      rw [List.flatMap_cons, List.map_append, String.join_append]

end ReplayLemmas

open ReplayLemmas

/-- Without a prompt a session writes nothing on standard output but what it tells of its
calculations. -/
theorem output_run (hprompt : s.prompt = "") (text : String) :
    output (run s (Input.ofText text)).1 =
      String.join (((calculations s (Input.ofText text)).flatMap (told s)).map (· ++ "\n")) := by
  have hevents : promptEvents s = [] := by rw [promptEvents, hprompt]; rfl
  rw [← output_writes]
  show output (writes (runFrom s .eof 0 (Input.ofText text).lines).1) = _
  rw [writes_runFrom, hevents, List.append_nil]
  exact output_blocks s _

/-! ## 2. What is told has a value -/

/-- A line without the word that introduces tokens or a tree. -/
def unlabelled (line : List Char) : List Char :=
  if "tokens: ".toList <+: line then line.drop "tokens: ".toList.length
  else if "tree: ".toList <+: line then line.drop "tree: ".toList.length
  else line

/-- What is told of a calculation, without the words that introduce tokens and tree. -/
def recalled (s : Settings) (c : Calculation) : List String :=
  (if s.showTokens then [Token.render c.tokens] else []) ++
  (if s.showTree then [c.tree.text] else []) ++
  [Numeral.ofInt c.value]

variable {limit : Int} {line text : String} {c : Calculation}

namespace ReplayLemmas

theorem unlabelled_tokens (text : List Char) : unlabelled ("tokens: ".toList ++ text) = text := by
  rw [unlabelled, if_pos (List.prefix_append _ _)]
  exact List.drop_left

theorem unlabelled_tree (text : List Char) : unlabelled ("tree: ".toList ++ text) = text := by
  have hother : ¬ "tokens: ".toList <+: "tree: ".toList ++ text := by simp
  rw [unlabelled, if_neg hother, if_pos (List.prefix_append _ _)]
  exact List.drop_left

/-- A line that begins with a digit has no such word. -/
theorem unlabelled_digits {d : Char} (hd : Numeral.isDigit d = true) (ds : List Char) :
    unlabelled (d :: ds) = d :: ds := by
  have hne : ¬ 't' = d := by
    rintro rfl
    exact absurd hd (by decide)
  have htokens : ¬ "tokens: ".toList <+: d :: ds := by simp [hne]
  have htree : ¬ "tree: ".toList <+: d :: ds := by simp [hne]
  rw [unlabelled, if_neg htokens, if_neg htree]

theorem unlabelled_value {v : Int} (hv : InRange v) :
    unlabelled (Numeral.ofInt v ++ "\n").toList = (Numeral.ofInt v ++ "\n").toList := by
  obtain ⟨n, rfl⟩ := Int.eq_ofNat_of_zero_le hv.1
  rw [Numeral.ofInt_natCast, String.toList_append, Numeral.toList_ofNat]
  obtain ⟨d, ds, hdigits⟩ := List.exists_cons_of_ne_nil (Numeral.digits_ne_nil n)
  have hd : Numeral.isDigit d = true :=
    Numeral.isDigit_of_mem_digits (n := n) (hdigits ▸ List.mem_cons_self)
  rw [hdigits]
  exact unlabelled_digits hd _

end ReplayLemmas

theorem mem_recalled (h : text ∈ recalled s c) :
    text = Token.render c.tokens ∨ text = c.tree.text ∨ text = Numeral.ofInt c.value := by
  have hcases : (s.showTokens = true ∧ text = Token.render c.tokens) ∨
      (s.showTree = true ∧ text = c.tree.text) ∨ text = Numeral.ofInt c.value := by
    simpa [recalled] using h
  exact hcases.imp And.right fun h => h.imp And.right id

theorem length_recalled (s : Settings) (c : Calculation) :
    (recalled s c).length = 1 + s.showTokens.toNat + s.showTree.toNat := by
  unfold recalled
  cases s.showTokens <;> cases s.showTree <;> rfl

/-- Without the words that introduce tokens and tree, what is told of a calculation is what
is recalled of it. -/
theorem unlabelled_told (hv : InRange c.value) :
    ((told s c).map fun text => (text ++ "\n").toList).flatMap unlabelled =
      (String.join ((recalled s c).map (· ++ "\n"))).toList := by
  have htokens : unlabelled ("tokens: " ++ Token.render c.tokens ++ "\n").toList =
      (Token.render c.tokens ++ "\n").toList := by
    rw [String.append_assoc, String.toList_append, unlabelled_tokens]
  have htree : unlabelled ("tree: " ++ c.tree.text ++ "\n").toList =
      (c.tree.text ++ "\n").toList := by
    rw [String.append_assoc, String.toList_append, unlabelled_tree]
  have hvalue := unlabelled_value hv
  rw [String.toList_join]
  unfold told recalled
  cases s.showTokens <;> cases s.showTree <;>
    simp only [Bool.false_eq_true, if_false, if_true, List.map_append, List.map_cons, List.map_nil,
      List.flatMap_append, List.flatMap_cons, List.flatMap_nil, htokens, htree, hvalue]

namespace ReplayLemmas

theorem ofTokens_spelled {e : Expr} (h : (e.depth : Int) - 1 ≤ max limit 0) :
    Expr.ofTokens limit e.spelled = .ok e := by
  have hnesting : (e.derivation.asExpression.nesting : Int) ≤ max limit 0 := by
    rw [RoundTripLemmas.nesting_asExpression]
    have := e.nesting_derivation
    rw [Expr.depth_eq_height] at h
    omega
  have hread := (ofTokens_derivation limit e.derivation.asExpression).1 hnesting
  rwa [RoundTripLemmas.tokens_asExpression, RoundTripLemmas.tree_asExpression, e.tokens_derivation,
    e.tree_derivation] at hread

theorem scan_rendered {ts : List Token} (h : NumbersInRange ts) :
    Token.scan (Token.render ts ++ "\n") = .ok ts := by
  rw [Token.scan_newline]
  exact Token.ConcatenationLemmas.scanFrom_render h 1

/-- The text of an expression is a line with the value of the expression. -/
theorem trace_text {e : Expr} {v : Int} (hdepth : (e.depth : Int) - 1 ≤ max limit 0)
    (hv : e.eval = .ok v) :
    trace limit (e.text ++ "\n") = .ok ⟨e.text ++ "\n", e.spelled, e, v⟩ := by
  have hscan : Token.scan (e.text ++ "\n") = .ok e.spelled := by
    rw [Token.scan_newline, Token.scan_text]
  exact trace_eq_ok.mpr ⟨rfl, hscan, ofTokens_spelled hdepth, hv⟩

/-- A value is written like the expression that is nothing but its number. -/
theorem exists_text_of_inRange {v : Int} (hv : InRange v) :
    ∃ e : Expr, e.text = Numeral.ofInt v ∧ e.depth = 1 ∧ e.eval = .ok v := by
  obtain ⟨w, hw⟩ := exists_literal?_eq_ok.mpr hv
  obtain rfl := literal?_eq_ok.mp hw
  refine ⟨.literal w, ?_, ?_, Expr.eval_literal w⟩
  · rw [Expr.text_eq_spelling]
    rfl
  · rw [Expr.depth_eq_height]
    rfl

end ReplayLemmas

/-- Everything that is told of a line is a line with the same value, under every limit that
is no lower and leaves room for the tree. -/
theorem value_of_recalled (h : trace s.maxDepth line = .ok c) (hlimit : s.maxDepth ≤ limit)
    (hdepth : (c.tree.depth : Int) - 1 ≤ limit) (htext : text ∈ recalled s c) :
    ∃ c', trace limit (text ++ "\n") = .ok c' ∧ c'.value = c.value := by
  obtain ⟨-, hscan, hread, heval⟩ := trace_eq_ok.mp h
  have htokens :
      ∃ c', trace limit (Token.render c.tokens ++ "\n") = .ok c' ∧ c'.value = c.value := by
    have hagain := scan_rendered (numbersInRange_scan hscan)
    exact ⟨⟨_, c.tokens, c.tree, c.value⟩,
      trace_eq_ok.mpr ⟨rfl, hagain, ofTokens_of_le hlimit hread, heval⟩, rfl⟩
  have htree : ∃ c', trace limit (c.tree.text ++ "\n") = .ok c' ∧ c'.value = c.value :=
    ⟨_, trace_text (Int.le_trans hdepth (Int.le_max_left _ _)) heval, rfl⟩
  have hvalue :
      ∃ c', trace limit (Numeral.ofInt c.value ++ "\n") = .ok c' ∧ c'.value = c.value := by
    obtain ⟨e, htext, hone, hv⟩ := exists_text_of_inRange (inRange_of_eval heval)
    rw [← htext]
    exact ⟨_, trace_text (by omega) hv, rfl⟩
  rcases mem_recalled htext with rfl | rfl | rfl
  · exact htokens
  · exact htree
  · exact hvalue

/-! ## 3. The second session -/

/-- What a session wrote on standard output, each line without the word that introduces
tokens or a tree. -/
def replayed (events : List Event) : String :=
  String.ofList ((Text.splitLines (output events).toList).flatMap unlabelled)

namespace ReplayLemmas

theorem mem_calculations {input : Input} (h : c ∈ calculations s input) :
    ∃ line, trace s.maxDepth line = .ok c := by
  obtain ⟨line, -, hline⟩ := List.mem_filterMap.mp h
  cases htrace : trace s.maxDepth line with
  | error fault =>
    rw [htrace] at hline
    cases hline
  | ok c' =>
    rw [htrace] at hline
    exact ⟨line, htrace.trans (congrArg _ (Option.some.inj hline))⟩

theorem plain_recalled (h : text ∈ recalled s c) : Plain text := by
  rcases mem_recalled h with rfl | rfl | rfl
  · exact plain_render c.tokens
  · exact plain_exprText c.tree
  · exact plain_ofInt c.value

theorem unlabelled_lines {cs : List Calculation} (h : ∀ c ∈ cs, InRange c.value) :
    ((cs.flatMap (told s)).map fun text => (text ++ "\n").toList).flatMap unlabelled =
      (String.join ((cs.flatMap (recalled s)).map (· ++ "\n"))).toList := by
  induction cs with
  | nil => rfl
  | cons c cs ih =>
    rw [List.flatMap_cons, List.map_append, List.flatMap_append, List.flatMap_cons,
      List.map_append, String.join_append, String.toList_append,
      unlabelled_told (h c List.mem_cons_self), ih fun c' hc' => h c' (List.mem_cons_of_mem c hc')]

end ReplayLemmas

/-- A session that is fed the output of another reads a line for each line that told of a
calculation. -/
theorem lines_replayed (hprompt : s.prompt = "") (text : String) :
    (Input.ofText (replayed (run s (Input.ofText text)).1)).lines =
      ((calculations s (Input.ofText text)).flatMap (recalled s)).map (· ++ "\n") := by
  have htold : ∀ t ∈ (calculations s (Input.ofText text)).flatMap (told s), OneLine t := by
    intro t ht
    obtain ⟨c, -, hc⟩ := List.mem_flatMap.mp ht
    exact oneLine_told hc
  have hrecalled : ∀ t ∈ (calculations s (Input.ofText text)).flatMap (recalled s), OneLine t := by
    intro t ht
    obtain ⟨c, -, hc⟩ := List.mem_flatMap.mp ht
    exact (plain_recalled hc).oneLine
  have hrange : ∀ c ∈ calculations s (Input.ofText text), InRange c.value := by
    intro c hc
    obtain ⟨line, hline⟩ := mem_calculations hc
    exact inRange_of_eval (trace_eq_ok.mp hline).2.2.2
  have hreplayed : replayed (run s (Input.ofText text)).1 =
      String.join
        (((calculations s (Input.ofText text)).flatMap (recalled s)).map (· ++ "\n")) := by
    rw [replayed, output_run hprompt, splitLines_join htold, unlabelled_lines hrange,
      String.ofList_toList]
  rw [hreplayed, Input.ofText, splitLines_join hrecalled, List.map_map]
  exact List.map_congr_left fun t _ => String.ofList_toList

/-- A line with a value does not hold the exit command. -/
theorem not_isExit_of_value (h : trace limit line = .ok c) : isExit line = false := by
  obtain ⟨-, hscan, -, -⟩ := trace_eq_ok.mp h
  have haccounts := Token.ScanningLemmas.scan_accounts line
  rw [hscan] at haccounts
  obtain ⟨hallowed, -⟩ := Token.ScanningLemmas.no_offenceAt_iff.mp fun i cause =>
    haccounts.2 i cause (Nat.zero_le i)
  refine Bool.eq_false_iff.mpr fun hexit => ?_
  have htrim : Text.trim Text.isBlank line.toList = exitCommand.toList := beq_iff_eq.mp hexit
  have he : 'e' ∈ line.toList := by
    apply Text.mem_trim (p := Text.isBlank)
    rw [htrim]
    decide
  rcases hallowed 'e' he with hblank | hdigit | ⟨t, ht⟩
  · exact absurd hblank (by decide)
  · exact absurd hdigit (by decide)
  · have hnone : Token.ofChar? 'e' = none := by decide
    rw [Token.ScanningLemmas.ofChar?_eq_some.mpr ht] at hnone
    cases hnone

/-! ## 4. A session on the output of another -/

namespace ReplayLemmas

/-- A session that has no prompt and echoes nothing answers lines with values by these
values and nothing else. -/
theorem runFrom_values {ι : Type} {items : List ι} {line : ι → String} {value : ι → Int}
    (hprompt : s.prompt = "") (htokens : s.showTokens = false) (htree : s.showTree = false)
    (h : ∀ item ∈ items, ∃ c, trace s.maxDepth (line item) = .ok c ∧ c.value = value item) :
    writes (runFrom s .eof 0 (items.map line)).1 =
      items.map fun item => .out (Numeral.ofInt (value item) ++ "\n") := by
  have hevents : promptEvents s = [] := by rw [promptEvents, hprompt]; rfl
  rw [writes_runFrom, hevents, List.append_nil]
  induction items with
  | nil => rfl
  | cons item items ih =>
    obtain ⟨c, hc, hvalue⟩ := h item List.mem_cons_self
    have hblock : block s (line item) = [.out (Numeral.ofInt (value item) ++ "\n")] := by
      rw [block_of_value hc, told, htokens, htree, ← hvalue]
      rfl
    rw [List.map_cons, List.takeWhile_cons, not_isExit_of_value hc, Bool.not_false, if_pos rfl,
      List.flatMap_cons, hblock, ih fun i hi => h i (List.mem_cons_of_mem item hi)]
    rfl

end ReplayLemmas

/-- What a session without a prompt wrote on standard output, without the words that
introduce tokens and trees, is an input on which a silent session, whose limit is no lower
and leaves room for every tree, writes nothing on standard error and ends with status zero.
It repeats every value of the first one in order, as often as a line told of it. -/
theorem run_replay {s s' : Settings} {text : String} (hprompt : s.prompt = "")
    (hsilent : s'.prompt = "" ∧ s'.showTokens = false ∧ s'.showTree = false)
    (hlimit : s.maxDepth ≤ s'.maxDepth)
    (hdepth : ∀ c ∈ calculations s (Input.ofText text),
      (c.tree.depth : Int) - 1 ≤ s'.maxDepth) :
    let values := (calculations s (Input.ofText text)).map Calculation.value
    let second := run s' (Input.ofText (replayed (run s (Input.ofText text)).1))
    output (run s (Input.ofText text)).1 =
        String.join
          (((calculations s (Input.ofText text)).flatMap (told s)).map (· ++ "\n")) ∧
      second.2 = 0 ∧
      writes second.1 = values.flatMap fun v =>
        List.replicate (1 + s.showTokens.toNat + s.showTree.toNat)
          (.out (Numeral.ofInt v ++ "\n")) := by
  refine ⟨output_run hprompt text, status_runFrom s' 0 _, ?_⟩
  obtain ⟨hprompt', htokens, htree⟩ := hsilent
  -- Each line of the second session, with the calculation that it tells of.
  let items := (calculations s (Input.ofText text)).flatMap fun c =>
    (recalled s c).map fun text => (text, c.value)
  have hlines : (Input.ofText (replayed (run s (Input.ofText text)).1)).lines =
      items.map fun item => item.1 ++ "\n" := by
    rw [lines_replayed hprompt, List.map_flatMap, List.map_flatMap]
    simp only [List.map_map]
    rfl
  have hvalues : ∀ item ∈ items,
      ∃ c, trace s'.maxDepth (item.1 ++ "\n") = .ok c ∧ c.value = item.2 := by
    intro item hitem
    obtain ⟨c, hc, hitem⟩ := List.mem_flatMap.mp hitem
    obtain ⟨text, htext, rfl⟩ := List.mem_map.mp hitem
    obtain ⟨line, hline⟩ := mem_calculations hc
    exact value_of_recalled hline hlimit (hdepth c hc) htext
  rw [run, hlines]
  refine (runFrom_values hprompt' htokens htree hvalues).trans ?_
  rw [List.map_flatMap, List.flatMap_map]
  refine congrArg (List.flatMap · _) (funext fun c => ?_)
  rw [List.map_map, ← length_recalled s c]
  show (recalled s c).map (fun _ => Event.out (Numeral.ofInt c.value ++ "\n")) = _
  exact List.map_const'

/-- With both flags on the value 3 of `(7 / 2)` comes back three times. The line without a value
leaves nothing, and what stands behind the exit command is not read. -/
theorem run_replay_echoes :
    let first : Settings := ⟨"", 1, true, true, by decide⟩
    let second : Settings := ⟨"", 2, false, false, by decide⟩
    let input := Input.ofText "(7 / 2)\n1 +\nexit\n9"
    (∀ c ∈ calculations first input, (c.tree.depth : Int) - 1 ≤ second.maxDepth) ∧
      writes (run second (Input.ofText (replayed (run first input).1))).1 =
        [.out "3\n", .out "3\n", .out "3\n"] := by
  intro first second input
  let e : Expr := .binary .div (.literal 7) (.literal 2)
  have hdepth : (e.depth : Int) - 1 ≤ 1 := by
    rw [Expr.depth_eq_height]
    decide
  have hcalculations : calculations first input = [⟨e.text ++ "\n", e.spelled, e, 3⟩] := by
    have htext : e.text = "(7 / 2)" := by
      rw [Expr.text_eq_spelling]
      decide +kernel
    have hlines : input.lines.takeWhile (fun line => !isExit line) =
        [e.text ++ "\n", Token.render [.number 1, .operator .add] ++ "\n"] := by
      rw [htext]
      decide +kernel
    have hvalue : trace first.maxDepth (e.text ++ "\n") = .ok ⟨e.text ++ "\n", e.spelled, e, 3⟩ :=
      trace_text hdepth
        (Expr.eval_apply (Expr.eval_literal 7) (Expr.eval_literal 2) (by decide) (by decide))
    have hfault : trace first.maxDepth (Token.render [.number 1, .operator .add] ++ "\n") =
        .error (.parse .operandMissing) := by
      have hread : Expr.ofTokens first.maxDepth [.number 1, .operator .add] =
          .error .operandMissing := by
        show Expr.ofTokens 1 _ = _
        cbv
      rw [trace_eq, scan_rendered (by decide)]
      dsimp only
      rw [hread]
    rw [calculations, hlines, List.filterMap_cons, hvalue, List.filterMap_cons, hfault]
    rfl
  have hroom : ∀ c ∈ calculations first input, (c.tree.depth : Int) - 1 ≤ second.maxDepth := by
    rw [hcalculations]
    intro c hc
    obtain rfl := List.mem_singleton.mp hc
    exact Int.le_trans hdepth (by decide)
  have hprompt : first.prompt = "" := rfl
  have hsilent : second.prompt = "" ∧ second.showTokens = false ∧ second.showTree = false :=
    ⟨rfl, rfl, rfl⟩
  obtain ⟨-, -, hsecond⟩ := run_replay hprompt hsilent (by decide) hroom
  have hthree : Numeral.ofInt 3 = "3" := by decide +kernel
  refine ⟨hroom, hsecond.trans ?_⟩
  rw [hcalculations]
  show [Event.out (Numeral.ofInt 3 ++ "\n"), Event.out (Numeral.ofInt 3 ++ "\n"),
    Event.out (Numeral.ofInt 3 ++ "\n")] = _
  rw [hthree]
  rfl

end Abacus.Session
