import Abacus.Proofs.Branches
import Abacus.Proofs.FrontEnds
import Abacus.Proofs.Outlook
import Abacus.Proofs.RoundTrip
import Mathlib.Data.List.Forall2

/-!
# What a tree is shown as

A tree is shown as a drawing of one line for each node, or as flattened text when it is too
deep for one. Either way nothing about the tree is lost.

Results:
1. `shownBy_drawing`: the lines of a drawing show the nodes of the tree in order, each behind
   four columns of guides for each level.
2. `length_le_of_mem_drawing`, `exists_widest_line`: the number of levels bounds the width of
   a drawing, and no smaller bound would do.
3. `eq_of_drawing_eq`, `eq_of_text_eq`: a drawing, like a flattened text, is that of one tree
   only.
4. `tree_shown`: what the command shows of an expression, for which terminals the drawing is
   the one they make of the branches that they are handed, and that it tells the tree.
-/

namespace Abacus

namespace Expr

/-! ## 1. A line for each node -/

/-- The nodes of a tree with their levels, each operator in front of its operands and all of
the left operand in front of the right one. -/
def outline (level : Nat) : Expr → List (Nat × Expr)
  | .literal value => [(level, .literal value)]
  | .binary op left right =>
    (level, .binary op left right) :: (left.outline (level + 1) ++ right.outline (level + 1))

/-- The characters that guides are drawn with. -/
def guideChars : List Char := ['├', '─', '│', '└', ' ']

/-- A guide takes four columns. -/
def IsGuide (guide : String) : Prop := guide.length = 4 ∧ ∀ c ∈ guide.toList, c ∈ guideChars

/-- A line shows a node on a level: four columns of guides for each level, and behind them
the label of the node. -/
def ShownBy (node : Nat × Expr) (line : String) : Prop :=
  ∃ guides : List Char, guides.length = 4 * node.1 ∧ (∀ c ∈ guides, c ∈ guideChars) ∧
    line.toList = guides ++ node.2.label.toList

namespace DrawingsLemmas

variable {nodes : List (Nat × Expr)} {node : Nat × Expr} {lines : List String} {line : String}

/-- The four guides of a drawing. -/
theorem isGuide_of_mem {guide : String} (h : guide ∈ ["├── ", "│   ", "└── ", "    "]) :
    IsGuide guide := by
  have hguides : ["├── ", "│   ", "└── ", "    "].all (fun guide =>
      guide.length == 4 && guide.toList.all (guideChars.contains ·)) = true := by decide
  obtain ⟨hlength, hchars⟩ := Bool.and_eq_true_iff.mp (List.all_eq_true.mp hguides guide h)
  exact ⟨beq_iff_eq.mp hlength, fun c hc =>
    List.contains_iff_mem.mp (List.all_eq_true.mp hchars c hc)⟩

theorem outline_succ (e : Expr) (level : Nat) :
    e.outline (level + 1) = (e.outline level).map fun node => (node.1 + 1, node.2) := by
  induction e generalizing level with
  | literal value => rfl
  | binary op left right ihl ihr =>
    rw [outline, outline, ihl, ihr, List.map_cons, List.map_append]

theorem shownBy_guide {guide : String} (hguide : IsGuide guide) (h : ShownBy node line) :
    ShownBy (node.1 + 1, node.2) (guide ++ line) := by
  obtain ⟨guides, hlength, hchars, hline⟩ := h
  refine ⟨guide.toList ++ guides, ?_, ?_, ?_⟩
  · rw [List.length_append, String.length_toList, hguide.1, hlength]
    omega
  · exact List.forall_mem_append.mpr ⟨hguide.2, hchars⟩
  · rw [String.toList_append, hline, List.append_assoc]

/-- Lines that hang from guides show the same nodes one level deeper. -/
theorem shownBy_hang {first below : String} (hfirst : IsGuide first) (hbelow : IsGuide below)
    (h : List.Forall₂ ShownBy nodes lines) :
    List.Forall₂ ShownBy (nodes.map fun node => (node.1 + 1, node.2)) (hang first below lines) := by
  cases h with
  | nil => exact .nil
  | cons hline hlines =>
    refine .cons (shownBy_guide hfirst hline) ?_
    rw [List.forall₂_map_left_iff, List.forall₂_map_right_iff]
    exact hlines.imp fun _ _ => shownBy_guide hbelow

end DrawingsLemmas

open DrawingsLemmas

/-- The lines of a drawing show the nodes of the tree, in order. -/
theorem shownBy_drawing (e : Expr) : List.Forall₂ ShownBy (e.outline 0) e.drawing := by
  have hroot (e : Expr) : ShownBy (0, e) e.label := ⟨[], rfl, nofun, rfl⟩
  induction e with
  | literal value => exact .cons (hroot _) .nil
  | binary op left right ihl ihr =>
    rw [outline, drawing, outline_succ, outline_succ]
    refine .cons (hroot _) (List.rel_append ?_ ?_)
    · exact shownBy_hang (isGuide_of_mem (by decide)) (isGuide_of_mem (by decide)) ihl
    · exact shownBy_hang (isGuide_of_mem (by decide)) (isGuide_of_mem (by decide)) ihr

/-! ## 2. Widths -/

namespace DrawingsLemmas

variable {nodes : List (Nat × Expr)} {node : Nat × Expr} {lines : List String} {line : String}

theorem level_lt_of_mem_outline {e : Expr} {level : Nat} (h : node ∈ e.outline level) :
    node.1 < level + e.height := by
  induction e generalizing level with
  | literal value =>
    rw [List.mem_singleton.mp h]
    exact Nat.lt_succ_self level
  | binary op left right ihl ihr =>
    rw [height]
    rcases List.mem_cons.mp h with rfl | h
    · show level < _
      omega
    · rcases List.mem_append.mp h with h | h
      · have := ihl h
        omega
      · have := ihr h
        omega

theorem exists_shownBy (h : List.Forall₂ ShownBy nodes lines) (hline : line ∈ lines) :
    ∃ node ∈ nodes, ShownBy node line := by
  induction h with
  | nil => cases hline
  | @cons node _ nodes _ hshown _ ih =>
    rcases List.mem_cons.mp hline with rfl | hline
    · exact ⟨node, List.mem_cons_self, hshown⟩
    · obtain ⟨node', hmem, hshown'⟩ := ih hline
      exact ⟨node', List.mem_cons_of_mem node hmem, hshown'⟩

theorem length_of_shownBy (h : ShownBy node line) :
    line.length = 4 * node.1 + node.2.label.length := by
  obtain ⟨guides, hlength, -, hline⟩ := h
  rw [← String.length_toList, hline, List.length_append, hlength, String.length_toList]

theorem exists_mem_hang {first below : String} (hfirst : IsGuide first) (hbelow : IsGuide below)
    (h : line ∈ lines) : ∃ guide, IsGuide guide ∧ guide ++ line ∈ hang first below lines := by
  cases h with
  | head lines => exact ⟨first, hfirst, List.mem_cons_self⟩
  | tail _ h => exact ⟨below, hbelow, List.mem_cons_of_mem _ (List.mem_map_of_mem h)⟩

end DrawingsLemmas

/-- Each level but the last makes a drawing at most four columns wider. -/
theorem length_le_of_mem_drawing {e : Expr} {line : String} (h : line ∈ e.drawing) :
    line.length ≤ 4 * (e.height - 1) + widestLabel := by
  obtain ⟨node, hnode, hshown⟩ := exists_shownBy e.shownBy_drawing h
  have hlevel := level_lt_of_mem_outline hnode
  have hlabel := node.2.length_label
  rw [length_of_shownBy hshown]
  omega

/-- No line of sixteen levels is wider than eighty columns. -/
theorem length_le_eighty {e : Expr} (hdepth : e.depth ≤ 16) {line : String}
    (h : line ∈ e.drawing) : line.length ≤ 80 := by
  have hlength := length_le_of_mem_drawing h
  rw [depth_eq_height] at hdepth
  rw [widestLabel] at hlength
  omega

/-- Some tree of each height makes a drawing as wide as any tree of that height can. -/
theorem exists_widest_line (levels : Nat) :
    ∃ e : Expr, e.height = levels + 1 ∧
      ∃ line ∈ e.drawing, line.length = 4 * levels + widestLabel := by
  induction levels with
  | zero =>
    let widest : Expr := .literal (UInt64.ofNat maxValue)
    exact ⟨widest, rfl, widest.label, List.mem_cons_self, by decide +kernel⟩
  | succ levels ih =>
    obtain ⟨e, hheight, line, hline, hlength⟩ := ih
    have hfirst : IsGuide "└── " := isGuide_of_mem (by decide)
    have hbelow : IsGuide "    " := isGuide_of_mem (by decide)
    obtain ⟨guide, hguide, hmem⟩ := exists_mem_hang hfirst hbelow hline
    refine ⟨.binary .add (.literal 0) e, ?_, guide ++ line, ?_, ?_⟩
    · rw [height, hheight, height]
      omega
    · exact List.mem_cons_of_mem _ (List.mem_append_right _ hmem)
    · rw [String.length_append, hguide.1, hlength]
      omega

/-! ## 3. What tells a tree -/

/-- The labels of all nodes, in the order of the outline. -/
def labels : Expr → List String
  | .literal value => [(literal value).label]
  | .binary op left right => (binary op left right).label :: (left.labels ++ right.labels)

namespace DrawingsLemmas

/-- Labels are made of digits and the symbols of operators. -/
theorem digit_or_symbol {e : Expr} {c : Char} (h : c ∈ e.label.toList) :
    Numeral.isDigit c = true ∨ ∃ op : Operator, c = op.symbol := by
  cases e with
  | literal value =>
    rw [label, Numeral.toList_ofNat] at h
    exact .inl (Numeral.isDigit_of_mem_digits h)
  | binary op left right =>
    rw [label, Operator.text, String.toList_singleton, List.mem_singleton] at h
    exact .inr ⟨op, h⟩

theorem not_mem_guideChars {e : Expr} {c : Char} (h : c ∈ e.label.toList) : c ∉ guideChars := by
  intro hguide
  rcases digit_or_symbol h with hdigit | ⟨op, rfl⟩
  · have hguides : guideChars.any Numeral.isDigit = false := by decide
    exact Bool.false_ne_true (hguides.symm.trans (List.any_eq_true.mpr ⟨c, hguide, hdigit⟩))
  · revert hguide
    cases op <;> decide

/-- The label behind the guides of a line. -/
def unguided (line : String) : String :=
  String.ofList (line.toList.dropWhile (· ∈ guideChars))

theorem unguided_of_shownBy (h : ShownBy node line) : unguided line = node.2.label := by
  obtain ⟨guides, -, hguides, hline⟩ := h
  have hlabel : node.2.label.toList.dropWhile (· ∈ guideChars) = node.2.label.toList := by
    cases hchars : node.2.label.toList with
    | nil => rfl
    | cons c cs =>
      have hc : c ∉ guideChars := not_mem_guideChars (hchars ▸ List.mem_cons_self)
      exact List.dropWhile_cons_of_neg (by simpa using hc)
  rw [unguided, hline, List.dropWhile_append_of_pos (by simpa using hguides), hlabel,
    String.ofList_toList]

theorem map_unguided (h : List.Forall₂ ShownBy nodes lines) :
    lines.map unguided = nodes.map fun node => node.2.label := by
  induction h with
  | nil => rfl
  | cons hshown _ ih => rw [List.map_cons, List.map_cons, ih, unguided_of_shownBy hshown]

theorem map_label_outline (e : Expr) (level : Nat) :
    ((e.outline level).map fun node => node.2.label) = e.labels := by
  induction e generalizing level with
  | literal value => rfl
  | binary op left right ihl ihr => rw [outline, List.map_cons, List.map_append, ihl, ihr, labels]

theorem ofNat_ne_text (n : Nat) (op : Operator) : Numeral.ofNat n ≠ op.text := by
  intro h
  have hmem : op.symbol ∈ Numeral.digits n := by
    rw [← Numeral.toList_ofNat, h, Operator.text, String.toList_singleton]
    exact List.mem_cons_self
  have hdigit := Numeral.isDigit_of_mem_digits hmem
  revert hdigit
  cases op <;> decide

/-- How many labels belong to a tree shows from the labels. -/
theorem eq_of_labels_append {e e' : Expr} {rest rest' : List String}
    (h : e.labels ++ rest = e'.labels ++ rest') : e = e' ∧ rest = rest' := by
  induction e generalizing e' rest rest' with
  | literal value =>
    cases e' with
    | literal value' =>
      obtain ⟨hlabel, hrest⟩ := List.cons.inj h
      exact ⟨congrArg literal (UInt64.toNat_inj.mp (Numeral.ofNat_injective hlabel)), hrest⟩
    | binary op' left' right' => exact absurd (List.cons.inj h).1 (ofNat_ne_text _ _)
  | binary op left right ihl ihr =>
    cases e' with
    | literal value' => exact absurd (List.cons.inj h).1.symm (ofNat_ne_text _ _)
    | binary op' left' right' =>
      rw [labels, labels, List.cons_append, List.cons_append, List.append_assoc,
        List.append_assoc] at h
      obtain ⟨hop, hoperands⟩ := List.cons.inj h
      obtain ⟨rfl, hright⟩ := ihl hoperands
      obtain ⟨rfl, hrest⟩ := ihr hright
      exact ⟨congrArg (binary · left right) (Operator.text_injective hop), hrest⟩

end DrawingsLemmas

/-- A drawing is that of one tree only. -/
theorem eq_of_drawing_eq {e e' : Expr} (h : e.drawing = e'.drawing) : e = e' := by
  have hlabels : e.labels ++ [] = e'.labels ++ [] := by
    rw [← map_label_outline e 0, ← map_label_outline e' 0, ← map_unguided e.shownBy_drawing,
      ← map_unguided e'.shownBy_drawing, h]
  exact (eq_of_labels_append hlabels).1

/-- A flattened text is that of one tree only. -/
theorem eq_of_text_eq {e e' : Expr} (h : e.text = e'.text) : e = e' := by
  have hspelled : e.spelled = e'.spelled :=
    Except.ok.inj ((Token.scan_text e).symm.trans (h ▸ Token.scan_text e'))
  have htokens : e.derivation.asExpression.tokens = e'.derivation.asExpression.tokens := by
    rw [RoundTripLemmas.tokens_asExpression, RoundTripLemmas.tokens_asExpression,
      tokens_derivation, tokens_derivation, hspelled]
  have htrees := tree_eq_of_tokens_eq htokens
  rwa [RoundTripLemmas.tree_asExpression, RoundTripLemmas.tree_asExpression, tree_derivation,
    tree_derivation] at htrees

end Expr

/-! ## 4. What the command shows -/

namespace CommandLine

open Calculator Abacus.Expr Expr.DrawingsLemmas FrontEndsLemmas GrammarLemmas LinesLemmas

/-- What stands on the lines that show a tree. -/
def treeTexts (e : Expr) : List String :=
  if deepestDrawing < e.depth then
    ["Tree is " ++ Numeral.ofNat e.depth ++ " levels deep, showing it flattened:", e.text]
  else e.drawing

theorem treeLines_eq (e : Expr) : treeLines e = (treeTexts e).map (· ++ "\n") := by
  have hnotice : " levels deep, showing it flattened:\n" =
      " levels deep, showing it flattened:" ++ "\n" := by decide
  unfold treeLines treeTexts
  split
  · rw [hnotice, ← String.append_assoc]
    rfl
  · rfl

namespace DrawingsLemmas

variable {s : Settings} {expression : String} {e e' : Expr}

theorem oneLine_label (e : Expr) : OneLine e.label := by
  cases e with
  | literal value => exact (plain_ofNat _).oneLine
  | binary op left right => exact (plain_operatorText op).oneLine

theorem oneLine_treeTexts (e : Expr) : ∀ text ∈ treeTexts e, OneLine text := by
  intro text htext
  unfold treeTexts at htext
  split at htext
  · rcases List.mem_pair.mp htext with rfl | rfl
    · refine Plain.oneLine (plain_append.mpr ⟨plain_append.mpr ⟨?_, plain_ofNat _⟩, ?_⟩)
      · exact plain_literal (by decide)
      · exact plain_literal (by decide)
    · exact (plain_exprText e).oneLine
  · obtain ⟨node, -, guides, -, hguides, htext⟩ := exists_shownBy e.shownBy_drawing htext
    intro hbreak
    rcases List.mem_append.mp (htext ▸ hbreak) with hbreak | hbreak
    · have hguide := hguides _ hbreak
      revert hguide
      decide
    · exact oneLine_label node.2 hbreak

/-- No label begins like the line above a flattened text. -/
theorem notice_ne_label (n : Nat) (e : Expr) :
    "Tree is " ++ Numeral.ofNat n ++ " levels deep, showing it flattened:" ≠ e.label := by
  intro h
  have hmem : 'T' ∈ e.label.toList := by
    rw [← h]
    simp
  rcases digit_or_symbol hmem with hdigit | ⟨op, hsymbol⟩
  · revert hdigit
    decide
  · revert hsymbol
    cases op <;> decide

theorem notice_ne_drawing (n : Nat) (text : String) (e : Expr) :
    ["Tree is " ++ Numeral.ofNat n ++ " levels deep, showing it flattened:", text] ≠ e.drawing := by
  intro h
  have hroot : e.drawing.head? = some e.label := by
    cases e <;> rfl
  rw [← h] at hroot
  exact notice_ne_label n e (Option.some.inj hroot)

/-- The lines that show a tree are those of one tree only. -/
theorem eq_of_treeTexts_eq (h : treeTexts e = treeTexts e') : e = e' := by
  unfold treeTexts at h
  split at h <;> split at h
  · exact eq_of_text_eq (List.cons.inj (List.cons.inj h).2).1
  · exact absurd h (notice_ne_drawing _ _ _)
  · exact absurd h.symm (notice_ne_drawing _ _ _)
  · exact eq_of_drawing_eq h

theorem eq_of_join_eq (h : String.join (treeLines e) = String.join (treeLines e')) : e = e' := by
  have hinjective : Function.Injective fun text : String => (text ++ "\n").toList := by
    intro text text' heq
    dsimp only at heq
    rw [String.toList_append, String.toList_append] at heq
    exact String.toList_inj.mp (List.append_cancel_right heq)
  rw [treeLines_eq, treeLines_eq] at h
  have hlines := congrArg (fun text : String => Text.splitLines text.toList) h
  rw [splitLines_join (oneLine_treeTexts e), splitLines_join (oneLine_treeTexts e')] at hlines
  exact eq_of_treeTexts_eq (List.map_injective_iff.mpr hinjective hlines)

theorem parse_of_scan {limit : Int} {ts : List Token} (h : Token.scan expression = .ok ts) :
    parse limit expression = (Expr.ofTokens limit ts).mapError .parse := by
  rw [parse, scan, h]
  rfl

theorem parse_of_derivation {limit : Int} (d : Derivation .expression) (htree : d.tree = e)
    (hscan : Token.scan expression = .ok d.tokens) (hnesting : (d.nesting : Int) ≤ max limit 0) :
    parse limit expression = .ok e := by
  rw [parse_of_scan hscan, ofTokens_eq_ok.mpr ⟨d, rfl, htree, hnesting⟩]
  rfl

/-- No expression that is accepted begins like an option. -/
theorem head?_of_parse_eq_ok {limit : Int} (h : parse limit expression = .ok e) :
    expression.toList.head? ≠ some '-' := by
  intro hhead
  obtain ⟨cs, hcs⟩ := List.head?_eq_some_iff.mp hhead
  have hscan : Token.scan expression = (.operator .sub :: ·) <$> Token.scanFrom 2 cs := by
    rw [Token.scan, hcs]
    exact Token.RescanningLemmas.scanFrom_symbol (by decide)
  cases hrest : Token.scanFrom 2 cs with
  | error fault =>
    rw [parse, scan, hscan, hrest] at h
    cases h
  | ok ts =>
    have hparse : Expr.ofTokens limit (.operator .sub :: ts) =
        .error (.unexpected (.operator .sub) 1) :=
      OutlookLemmas.ofTokens_eq_error.mpr (Outlook.verdict_cons_error rfl)
    rw [hrest] at hscan
    rw [parse_of_scan hscan, hparse] at h
    cases h

theorem shows_tree (h : parse s.maxDepth expression = .ok e) :
    (answer s expression .tree).Shows 0 (String.join (treeLines e)) "" := by
  refine shows_of_ok ?_ (by decide)
  rw [listing, h]
  rfl

/-- The command succeeds on nothing but expressions. -/
theorem exists_tree_of_status (h : (answer s expression .tree).status = 0) :
    ∃ e, parse s.maxDepth expression = .ok e := by
  cases hparse : parse s.maxDepth expression with
  | ok e => exact ⟨e, rfl⟩
  | error fault =>
    have hlisting : listing s expression .tree = .error fault := by
      rw [listing, hparse]
      rfl
    have hstatus : 0 = 1 := h.symm.trans (shows_of_error hlisting (by decide)).status
    cases hstatus

/-- What is shown of an expression is what is shown of its tree, and of no other. -/
theorem stdout_eq_iff {s' : Settings} {expression' : String} (env : Environment)
    (h : parse s.maxDepth expression = .ok e) (h' : parse s'.maxDepth expression' = .ok e') :
    (answer s expression .tree).stdout env = (answer s' expression' .tree).stdout env ↔ e = e' := by
  rw [(shows_tree h).stdout, (shows_tree h').stdout]
  constructor
  · exact eq_of_join_eq
  · intro heq
    rw [heq]

end DrawingsLemmas

open DrawingsLemmas

/-- Let the command accept an expression. Then the expression parses to a tree, and the
command, behind whatever general options choose the settings, shows the tree on lines of
standard output. A tree of at most sixteen levels takes one line a node, in the order of its
outline, each behind four columns of guides a level and none wider than eighty columns, and
these are the lines that a terminal of eighty columns makes of the branches it is handed. A
deeper tree takes a line that tells its depth and one with its text. The command shows the
same of another expression that it accepts, under whatever settings, exactly if that parses to
the same tree. -/
theorem tree_shown {s : Settings} {expression : String}
    (haccepted : (answer s expression .tree).status = 0) :
    ∃ e, parse s.maxDepth expression = .ok e ∧
      (∀ found front stdin, Chooses found front s →
        (run found stdin (front ++ ["tree", expression])).Alike (answer s expression .tree)) ∧
      (∃ lines : List String,
        (answer s expression .tree).Shows 0 (String.join (lines.map (· ++ "\n"))) "" ∧
        (∀ line ∈ lines, OneLine line) ∧
        (e.depth ≤ 16 →
          lines.length = e.size ∧
          List.Forall₂ ShownBy (e.outline 0) lines ∧
          (∀ line ∈ lines, line.length ≤ 80) ∧
          ∀ wrap, LeavesFitting wrap → e.build.lines wrap 80 = lines) ∧
        (16 < e.depth → lines =
          ["Tree is " ++ Numeral.ofNat e.depth ++ " levels deep, showing it flattened:",
            e.text])) ∧
      ∀ s' expression', (answer s' expression' .tree).status = 0 → ∀ env,
        ((answer s expression .tree).stdout env = (answer s' expression' .tree).stdout env ↔
          parse s'.maxDepth expression' = .ok e) := by
  obtain ⟨e, hparse⟩ := exists_tree_of_status haccepted
  refine ⟨e, hparse, ?_, ⟨treeTexts e, ?_, oneLine_treeTexts e, ?_, ?_⟩, ?_⟩
  · intro found front stdin hfront
    exact run_alike_answer hfront stdin .tree (head?_of_parse_eq_ok hparse)
  · rw [← treeLines_eq]
    exact shows_tree hparse
  · intro hdepth
    have htexts : treeTexts e = e.drawing := if_neg (Nat.not_lt.mpr hdepth)
    rw [htexts]
    exact ⟨e.length_drawing, e.shownBy_drawing, fun line => length_le_eighty hdepth,
      fun wrap hwrap => lines_build hwrap hdepth⟩
  · intro hdepth
    exact if_pos hdepth
  · intro s' expression' haccepted' env
    obtain ⟨e', hparse'⟩ := exists_tree_of_status haccepted'
    rw [stdout_eq_iff env hparse hparse', hparse']
    exact ⟨fun h => congrArg _ h.symm, fun h => (Except.ok.inj h).symm⟩

/-- The product in `1+2*3` hangs below the sum, as it does with parentheses around it, and in
`(1+2)*3` the sum hangs below the product. -/
theorem tree_shown_product :
    let tree : Expr := .binary .add (.literal 1) (.binary .mul (.literal 2) (.literal 3))
    let shown (expression : String) : Outcome := answer .initial expression .tree
    let wrap (columns : Nat) (text : String) : List String :=
      if text.length ≤ columns then [text] else text.toList.map String.singleton
    (∀ expression ∈ ["1+2*3", "1+(2*3)", "(1+2)*3"], (shown expression).status = 0) ∧
      LeavesFitting wrap ∧
      tree.build.lines wrap 80 = ["+", "├── 1", "└── *", "    ├── 2", "    └── 3"] ∧
      (∀ env, (shown "1+2*3").stdout env = "+\n├── 1\n└── *\n    ├── 2\n    └── 3\n") ∧
      (∀ env, (shown "1+2*3").stdout env = (shown "1+(2*3)").stdout env) ∧
      ∀ env, (shown "1+2*3").stdout env ≠ (shown "(1+2)*3").stdout env := by
  intro tree shown wrap
  let one : Derivation .term := .chain (by decide) (.number 1) .nil
  let product : Derivation .term := (Derivation.number 2).join .mul (.number 3)
  let sum : Derivation .expression := (Derivation.number 1).join .add (.number 2)
  have hplain : parse Settings.initial.maxDepth "1+2*3" = .ok tree :=
    parse_of_derivation (.chain (by decide) one (.cons .add (by decide) product .nil)) rfl
      (by with_unfolding_all rfl) (by decide)
  have hgrouped : parse Settings.initial.maxDepth "1+(2*3)" = .ok tree :=
    parse_of_derivation ((Derivation.number 1).join .add (.group product.asExpression)) rfl
      (by with_unfolding_all rfl) (by decide)
  have hother : parse Settings.initial.maxDepth "(1+2)*3" =
      .ok (.binary .mul (.binary .add (.literal 1) (.literal 2)) (.literal 3)) :=
    parse_of_derivation ((Derivation.group sum).join .mul (.number 3)).asExpression rfl
      (by with_unfolding_all rfl) (by decide)
  have haccepted : ∀ expression ∈ ["1+2*3", "1+(2*3)", "(1+2)*3"],
      (shown expression).status = 0 := by
    simp only [List.forall_mem_cons]
    exact ⟨(shows_tree hplain).status, (shows_tree hgrouped).status, (shows_tree hother).status,
      nofun⟩
  have hwrap : LeavesFitting wrap := fun columns e hfits => if_pos hfits
  have hdrawing : tree.drawing = ["+", "├── 1", "└── *", "    ├── 2", "    └── 3"] := by
    decide +kernel
  have hdepth : tree.depth ≤ 16 := by
    rw [depth_eq_height]
    decide
  obtain ⟨e, hparse, -, ⟨lines, hshows, -, hshallow, -⟩, hsame⟩ :=
    tree_shown (haccepted "1+2*3" List.mem_cons_self)
  obtain rfl := Except.ok.inj (hplain.symm.trans hparse)
  have hlines := (hshallow hdepth).2.2.2 wrap hwrap
  rw [lines_build hwrap hdepth, hdrawing] at hlines
  refine ⟨haccepted, hwrap, ?_, fun env => ?_, fun env => ?_, fun env => ?_⟩
  · rw [lines_build hwrap hdepth, hdrawing]
  · rw [hshows.stdout, ← hlines]
    decide +kernel
  · exact (hsame .initial "1+(2*3)" (haccepted _ (by decide)) env).mpr hgrouped
  · intro heq
    have hequal := (hsame .initial "(1+2)*3" (haccepted _ (by decide)) env).mp heq
    rw [hother] at hequal
    have htrees := Except.ok.inj hequal
    revert htrees
    decide

end CommandLine

end Abacus
