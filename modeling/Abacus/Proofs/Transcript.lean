import Abacus.Proofs.Lines
import Abacus.Session.Run

/-!
# What a session writes

A session is told by its lines: every line up to the exit command is asked for and
answered, by what it writes alone, and after the last of them one more line is asked for.

Results:
1. `block_of_value`, `block_of_fault`: a line is answered with lines on standard output
   or with one line on standard error.
2. `writes_runFrom`: what a session writes is the answers to its lines in order, each
   behind a prompt, and one more prompt.
3. `run_ofText`: the session on a text, line by line.
-/

namespace Abacus.Session

open Calculator

/-! ## 1. One line -/

/-- What events write, in order. Records are left out. -/
def writes (events : List Event) : List Event := events.filter Event.isWrite

/-- The text that events write to standard output. -/
def output (events : List Event) : String := String.join (events.map Event.stdout)

/-- What the answer to a line writes. -/
def block (s : Settings) (line : String) : List Event := writes (lineEvents s line)

/-- What is said of a line that has a value, each text on a line of its own. -/
def told (s : Settings) (c : Calculation) : List String :=
  (if s.showTokens then ["tokens: " ++ Token.render c.tokens] else []) ++
  (if s.showTree then ["tree: " ++ c.tree.text] else []) ++
  [Numeral.ofInt c.value]

namespace TranscriptLemmas

theorem writes_append (events more : List Event) :
    writes (events ++ more) = writes events ++ writes more :=
  List.filter_append events more

theorem writes_log (records : List Record) : writes (records.map .log) = [] := by
  induction records with
  | nil => rfl
  | cons record records ih => exact ih

theorem output_append (events more : List Event) :
    output (events ++ more) = output events ++ output more := by
  rw [output, List.map_append, String.join_append]
  rfl

theorem output_writes (events : List Event) : output (writes events) = output events := by
  induction events with
  | nil => rfl
  | cons event events ih =>
    have hcons (more : List Event) : output (event :: more) = event.stdout ++ output more :=
      output_append [event] more
    cases event with
    | out text | err text =>
      show output (_ :: writes events) = _
      rw [hcons, hcons, ih]
    | log record =>
      show output (writes events) = _
      rw [hcons, ih]
      exact (String.empty_append).symm

theorem output_out (texts : List String) : output (texts.map .out) = String.join texts := by
  rw [output, List.map_map]
  exact congrArg String.join (List.map_id texts)

theorem writes_promptEvents (s : Settings) : writes (promptEvents s) = promptEvents s := by
  unfold promptEvents
  split <;> rfl

end TranscriptLemmas

open LinesLemmas TranscriptLemmas

variable {s : Settings} {line : String}

theorem block_of_value {c : Calculation} (h : trace s.maxDepth line = .ok c) :
    block s line = (told s c).map fun text => .out (text ++ "\n") := by
  rw [block, lineEvents, writes_append, writes_log, h]
  show writes (reportEvents s c) = _
  unfold reportEvents told
  cases s.showTokens <;> cases s.showTree <;> rfl

theorem block_of_fault {fault : Fault} (h : trace s.maxDepth line = .error fault) :
    block s line = [.err (fault.message ++ "\n")] := by
  rw [block, lineEvents, writes_append, writes_log, h]
  rfl

theorem plain_told {c : Calculation} {text : String} (h : text ∈ told s c) : Plain text := by
  have htokens : Plain ("tokens: " ++ Token.render c.tokens) :=
    plain_append.mpr ⟨plain_literal (by decide), plain_render c.tokens⟩
  have htree : Plain ("tree: " ++ c.tree.text) :=
    plain_append.mpr ⟨plain_literal (by decide), plain_exprText c.tree⟩
  unfold told at h
  rcases List.mem_append.mp h with h | h
  · rcases List.mem_append.mp h with h | h
    · split at h
      · rwa [List.mem_singleton.mp h]
      · cases h
    · split at h
      · rwa [List.mem_singleton.mp h]
      · cases h
  · rw [List.mem_singleton.mp h]
    exact plain_ofInt c.value

theorem oneLine_told {c : Calculation} {text : String} (h : text ∈ told s c) : OneLine text :=
  (plain_told h).oneLine

/-! ## 2. All of the lines -/

theorem status_runFrom (s : Settings) (count : Nat) (lines : List String) :
    (runFrom s .eof count lines).2 = statusOk := by
  induction lines generalizing count with
  | nil => rfl
  | cons line lines ih =>
    rw [runFrom]
    split
    · rfl
    · exact ih (count + 1)

/-- Every line up to the exit command is asked for and answered, and one more is asked
for. -/
theorem writes_runFrom (s : Settings) (count : Nat) (lines : List String) :
    writes (runFrom s .eof count lines).1 =
      (lines.takeWhile fun line => !isExit line).flatMap
        (fun line => promptEvents s ++ block s line) ++ promptEvents s := by
  induction lines generalizing count with
  | nil =>
    show writes (promptEvents s ++ [.log (.ended count)]) = _
    rw [writes_append, writes_promptEvents]
    exact List.append_nil _
  | cons line lines ih =>
    rw [runFrom, List.takeWhile_cons]
    cases isExit line with
    | true => exact writes_promptEvents s
    | false =>
      show writes (promptEvents s ++ lineEvents s line ++ (runFrom s .eof (count + 1) lines).1) =
        (line :: _).flatMap _ ++ _
      rw [writes_append, writes_append, writes_promptEvents, ih, List.flatMap_cons,
        List.append_assoc _ _ (promptEvents s)]
      rfl

/-- What follows an exit line is not read, and how the input ends does not matter. -/
theorem runFrom_append {ending ending' : Ending} {count : Nat} {lines : List String}
    (h : ∃ line ∈ lines, isExit line = true) (more : List String) :
    runFrom s ending count (lines ++ more) = runFrom s ending' count lines := by
  induction lines generalizing count with
  | nil =>
    obtain ⟨line, hline, -⟩ := h
    cases hline
  | cons line lines ih =>
    rw [List.cons_append, runFrom, runFrom]
    split
    · rfl
    · next hline =>
      have hlater : ∃ line ∈ lines, isExit line = true := by
        obtain ⟨exit, hmem, hexit⟩ := h
        rcases List.mem_cons.mp hmem with rfl | hmem
        · exact absurd hexit hline
        · exact ⟨exit, hmem, hexit⟩
      rw [ih hlater]

/-! ## 3. A text -/

namespace TranscriptLemmas

theorem lines_ofText (text : String) :
    Text.AreLines text.toList ((Input.ofText text).lines.map String.toList) := by
  have hsame : (Input.ofText text).lines.map String.toList = Text.splitLines text.toList := by
    show ((Text.splitLines text.toList).map String.ofList).map String.toList = _
    rw [List.map_map]
    exact (List.map_congr_left fun cs _ => String.toList_ofList).trans (List.map_id _)
  rw [hsame]
  exact Text.areLines_splitLines text.toList

theorem ofText_append {text : String} (h : text.toList.getLast? = some '\n') (more : String) :
    (Input.ofText (text ++ more)).lines =
      (Input.ofText text).lines ++ (Input.ofText more).lines := by
  show (Text.splitLines (text ++ more).toList).map String.ofList = _
  rw [String.toList_append, Text.splitLines_append h, List.map_append]
  rfl

end TranscriptLemmas

/-- A session on a text ends with status zero. For every line before the first that
holds the exit command it writes the prompt, if there is one, and the answer to the line,
and then the prompt once more. The answer depends on nothing but the line and the
settings: a line with a value is answered on standard output only, with its tokens and
its tree if they are wanted and then its value, each on one line, and any other line with
one line on standard error only. No text behind an exit line changes anything. -/
theorem run_ofText (s : Settings) (text : String) :
    Text.AreLines text.toList ((Input.ofText text).lines.map String.toList) ∧
    (run s (Input.ofText text)).2 = 0 ∧
    writes (run s (Input.ofText text)).1 =
      ((Input.ofText text).lines.takeWhile fun line => !isExit line).flatMap
        (fun line => (if s.prompt = "" then [] else [.out s.prompt]) ++ block s line) ++
      (if s.prompt = "" then [] else [.out s.prompt]) ∧
    (∀ line c, trace s.maxDepth line = .ok c →
      block s line = (told s c).map (fun text => .out (text ++ "\n")) ∧
        ∀ text ∈ told s c, OneLine text) ∧
    (∀ line fault, trace s.maxDepth line = .error fault →
      block s line = [.err (fault.message ++ "\n")] ∧ OneLine fault.message) ∧
    ∀ more, text.toList.getLast? = some '\n' →
      (∃ line ∈ (Input.ofText text).lines, isExit line = true) →
      run s (Input.ofText (text ++ more)) = run s (Input.ofText text) := by
  have hprompt : (if s.prompt = "" then [] else [.out s.prompt]) = promptEvents s := by
    unfold promptEvents
    simp only [String.isEmpty_iff]
  refine ⟨lines_ofText text, status_runFrom s 0 _, ?_, ?_, ?_, ?_⟩
  · rw [hprompt]
    exact writes_runFrom s 0 _
  · intro line c h
    exact ⟨block_of_value h, fun text => oneLine_told⟩
  · intro line fault h
    exact ⟨block_of_fault h, oneLine_message h⟩
  · intro more hend hexit
    show runFrom s .eof 0 (Input.ofText (text ++ more)).lines = _
    rw [ofText_append hend]
    exact runFrom_append hexit _

end Abacus.Session
