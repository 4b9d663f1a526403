import Abacus.CommandLine.Run
import Abacus.Proofs.Arguments
import Abacus.Proofs.Concatenation
import Abacus.Proofs.Transcript

/-!
# One line through four front ends

A line can be given to a session and, as an argument, to three commands, which stop behind
the scanner, behind the parser and behind the evaluator. They agree on what is wrong with
it and on its value.

Results:
1. `trace_newline`, `isExit_newline`: the line end makes no difference to a line.
2. `run_alike_answer`: whatever chooses the settings, a command line with one of the commands
   does what the command does under them.
3. `front_ends_agree`: the commands fail with the same diagnostic from the first stage that
   fails on, each writes to one stream only, and a session answers with what `eval` writes.
-/

namespace Abacus

/-! ## 1. The line end -/

namespace Calculator

variable {limit : Int} {line : String} {fault : Fault}

theorem scan_newline (line : String) : scan (line ++ "\n") = scan line :=
  congrArg (Except.mapError Fault.scan) (Token.scan_newline line)

theorem trace_newline (limit : Int) (line : String) :
    trace limit (line ++ "\n") =
      (trace limit line).map fun c => { c with source := line ++ "\n" } := by
  rw [trace_eq, trace_eq, Token.scan_newline]
  cases Token.scan line with
  | error stop => rfl
  | ok ts =>
    dsimp only
    cases Expr.ofTokens limit ts with
    | error stop => rfl
    | ok tree =>
      dsimp only
      cases tree.eval <;> rfl

theorem isExit_newline (line : String) : isExit (line ++ "\n") = isExit line := by
  rw [isExit, isExit, String.toList_append]
  exact congrArg (· == exitCommand.toList) (Text.trim_concat (by decide) line.toList)

/-- A fault of one stage is one of all that come after it. -/
theorem parse_of_scan_error (h : scan line = .error fault) : parse limit line = .error fault := by
  rw [parse, h]
  rfl

theorem calculate_of_parse_error (h : parse limit line = .error fault) :
    calculate limit line = .error fault := by
  rw [calculate, h]
  rfl

end Calculator

namespace CommandLine

open Calculator

/-! ## 2. What outcomes show -/

/-- An outcome with this exit status, and with these texts on the standard streams, wherever
and whenever the program runs. -/
structure Outcome.Shows (o : Outcome) (status : Nat) (out err : String) : Prop where
  status : o.status = status
  stdout : ∀ env, o.stdout env = out
  stderr : ∀ stamp, o.stderr stamp = err

/-- Outcomes that cannot be told apart. -/
structure Outcome.Alike (o o' : Outcome) : Prop where
  status : o.status = o'.status
  stdout : ∀ env, o.stdout env = o'.stdout env
  stderr : ∀ stamp, o.stderr stamp = o'.stderr stamp

namespace FrontEndsLemmas

theorem stdout_log (env : Environment) (status : Nat) (verbose : Bool) (records : List Record)
    (events : List Event) :
    (Outcome.finished status verbose (records.map .log ++ events)).stdout env =
      (Outcome.finished status verbose events).stdout env := by
  induction records with
  | nil => rfl
  | cons record records ih =>
    refine Eq.trans ?_ ih
    show String.join ("" :: _) = _
    rw [String.join_cons, String.empty_append]
    rfl

/-- Records for debugging are not written unless they are asked for. -/
theorem stderr_log {records : List Record} (h : ∀ record ∈ records, record.level = .debug)
    (stamp : String) (status : Nat) (events : List Event) :
    (Outcome.finished status false (records.map .log ++ events)).stderr stamp =
      (Outcome.finished status false events).stderr stamp := by
  induction records with
  | nil => rfl
  | cons record records ih =>
    refine Eq.trans ?_ (ih fun r hr => h r (List.mem_cons_of_mem record hr))
    have hsilent : Event.stderr stamp false (.log record) = "" := by
      rw [Event.stderr, Record.isShown, h record List.mem_cons_self]
      rfl
    show String.join (Event.stderr stamp false (.log record) :: _) = _
    rw [hsilent, String.join_cons, String.empty_append]
    rfl

theorem debug_concat {records : List Record} {record : Record}
    (h : ∀ r ∈ records, r.level = .debug) (hlast : record.level = .debug) :
    ∀ r ∈ records ++ [record], r.level = .debug := by
  intro r hr
  rcases List.mem_append.mp hr with hr | hr
  · exact h r hr
  · rw [List.mem_singleton.mp hr, hlast]

theorem debug_ofScan (line : String) : ∀ r ∈ Record.ofScan line, r.level = .debug := by
  unfold Record.ofScan
  split
  · exact List.forall_mem_singleton.mpr rfl
  · exact nofun

theorem debug_ofParse (limit : Int) (line : String) :
    ∀ r ∈ Record.ofParse limit line, r.level = .debug := by
  unfold Record.ofParse
  split
  · exact debug_concat (debug_ofScan line) rfl
  · exact debug_ofScan line

theorem debug_ofTrace (limit : Int) (line : String) :
    ∀ r ∈ Record.ofTrace limit line, r.level = .debug := by
  unfold Record.ofTrace
  split
  · exact debug_concat (debug_ofParse limit line) rfl
  · exact debug_ofParse limit line

theorem debug_ofCalculation (limit : Int) (line : String) :
    ∀ r ∈ Record.ofCalculation limit line, r.level = .debug := by
  unfold Record.ofCalculation
  split
  · exact debug_concat (debug_ofTrace limit line) rfl
  · exact debug_ofTrace limit line

variable {records : List Record} (hrecords : ∀ record ∈ records, record.level = .debug)

include hrecords

theorem shows_texts (texts : List String) :
    (Outcome.finished 0 false (records.map .log ++ texts.map .out)).Shows
      0 (String.join texts) "" where
  status := rfl
  stdout env := by
    rw [stdout_log]
    show Session.output (texts.map .out) = _
    exact Session.TranscriptLemmas.output_out texts
  stderr stamp := by
    rw [stderr_log hrecords]
    show String.join ((texts.map .out).map (Event.stderr stamp false)) = ""
    induction texts with
    | nil => rfl
    | cons text texts ih =>
      show String.join ("" :: _) = ""
      rw [String.join_cons, String.empty_append]
      exact ih

theorem shows_fault (line : String) (fault : Fault) :
    (Outcome.finished 1 false (records.map .log ++ [faultEvent line fault])).Shows
      1 "" (diagnostic (fault.notice line).display) where
  status := rfl
  stdout env := by
    rw [stdout_log]
    exact String.empty_append
  stderr stamp := by
    rw [stderr_log hrecords]
    exact String.empty_append

theorem alike_log (status : Nat) (events : List Event) :
    (Outcome.finished status false (records.map .log ++ events)).Alike
      (.finished status false events) :=
  ⟨rfl, fun env => stdout_log env status false records events,
    fun stamp => stderr_log hrecords stamp status events⟩

end FrontEndsLemmas

open FrontEndsLemmas

/-! ## 3. Commands on an expression -/

/-- The outcome of a run whose records for debugging are not wanted. -/
def Outcome.quiet (run : List Event × Nat) : Outcome := .finished run.2 false run.1

/-- What comes of a command on an expression under settings. A session takes none. -/
def answer (s : Settings) (expression : String) : Command → Outcome
  | .repl => .misuse
  | .eval => .quiet (runEval s expression)
  | .tokens => .quiet (runTokens expression)
  | .tree => .quiet (runTree s expression)

/-- The lines that a command on an expression has to show, unless a stage fails. -/
def listing (s : Settings) (expression : String) : Command → Except Fault (List String)
  | .repl => .ok []
  | .eval => (calculate s.maxDepth expression).map fun v => [Numeral.ofInt v ++ "\n"]
  | .tokens => (scan expression).map (tokenLines 1)
  | .tree => (parse s.maxDepth expression).map treeLines

variable {s : Settings} {expression : String} {command : Command}

namespace FrontEndsLemmas

theorem readExpression_operand (request : String → Request)
    (h : expression.toList.head? ≠ some '-') :
    readExpression request [expression] = .request (request expression) := by
  rw [readExpression, readArguments_single _ h]
  rfl

theorem readSession_operand {rules : OptionRules} (h : expression.toList.head? ≠ some '-') :
    readSession rules [expression] = .misuse := by
  rw [readSession, readArguments_single _ h]
  rfl

/-- A command shows its lines on standard output, or a diagnostic of the stage that fails on
standard error. -/
theorem shows_answer (s : Settings) (expression : String) (hcommand : command ≠ .repl) :
    match listing s expression command with
    | .ok texts => (answer s expression command).Shows 0 (String.join texts) ""
    | .error fault =>
      (answer s expression command).Shows 1 "" (diagnostic (fault.notice expression).display) := by
  cases command with
  | repl => exact absurd rfl hcommand
  | eval =>
    rw [answer, listing, runEval]
    cases calculate s.maxDepth expression with
    | ok value =>
      exact shows_texts (debug_ofCalculation _ _) [Numeral.ofInt value ++ "\n"]
    | error fault => exact shows_fault (debug_ofCalculation _ _) expression fault
  | tokens =>
    rw [answer, listing, runTokens]
    cases scan expression with
    | ok ts => exact shows_texts (debug_ofScan _) (tokenLines 1 ts)
    | error fault => exact shows_fault (debug_ofScan _) expression fault
  | tree =>
    rw [answer, listing, runTree]
    cases parse s.maxDepth expression with
    | ok tree => exact shows_texts (debug_ofParse _ _) (treeLines tree)
    | error fault => exact shows_fault (debug_ofParse _ _) expression fault

theorem shows_of_ok {texts : List String} (h : listing s expression command = .ok texts)
    (hcommand : command ≠ .repl) :
    (answer s expression command).Shows 0 (String.join texts) "" := by
  have hshows := shows_answer s expression hcommand
  rwa [h] at hshows

theorem shows_of_error {fault : Fault} (h : listing s expression command = .error fault)
    (hcommand : command ≠ .repl) :
    (answer s expression command).Shows 1 "" (diagnostic (fault.notice expression).display) := by
  have hshows := shows_answer s expression hcommand
  rwa [h] at hshows

/-- A fault that ends one command and another, too, is shown by both in the same way. -/
theorem fails_alike {command' : Command} (hcommand : command ≠ .repl) (hcommand' : command' ≠ .repl)
    (hnext : ∀ fault, listing s expression command = .error fault →
      listing s expression command' = .error fault)
    (h : (answer s expression command).status = 1) :
    (answer s expression command').status = 1 ∧
      ∀ stamp, (answer s expression command').stderr stamp =
        (answer s expression command).stderr stamp := by
  cases hlisting : listing s expression command with
  | ok texts =>
    have hstatus := (shows_of_ok hlisting hcommand).status
    rw [h] at hstatus
    cases hstatus
  | error fault =>
    have hshows := shows_of_error hlisting hcommand
    have hshows' := shows_of_error (hnext fault hlisting) hcommand'
    exact ⟨hshows'.status, fun stamp => (hshows'.stderr stamp).trans (hshows.stderr stamp).symm⟩

theorem listing_tree_of_tokens {fault : Fault} (h : listing s expression .tokens = .error fault) :
    listing s expression .tree = .error fault := by
  unfold listing at h ⊢
  cases hscan : scan expression with
  | ok ts =>
    rw [hscan] at h
    cases h
  | error stop =>
    rw [hscan] at h
    cases h
    rw [parse_of_scan_error hscan]
    rfl

theorem listing_eval_of_tree {fault : Fault} (h : listing s expression .tree = .error fault) :
    listing s expression .eval = .error fault := by
  unfold listing at h ⊢
  cases hparse : parse s.maxDepth expression with
  | ok tree =>
    rw [hparse] at h
    cases h
  | error stop =>
    rw [hparse] at h
    cases h
    rw [calculate_of_parse_error hparse]
    rfl

end FrontEndsLemmas

/-- These arguments are general options that choose the settings: they ask for no text and no
records, and the settings file that they name, if any, holds the settings. -/
def Chooses (found : Location → FileState) (front : List String) (s : Settings) : Prop :=
  ∃ a logged, readArguments General.specs false front = some a ∧ a.operands = [] ∧
    eager? a = none ∧ a.has .verbose = false ∧
    Preamble.load ⟨false, (a.lastValue? .config).map Location.ofText⟩ found = .ok (s, logged)

namespace FrontEndsLemmas

/-- Settings come from a file that can be read. -/
theorem exists_content_of_load {state : FileState} (h : Settings.load state = .ok s) :
    ∃ content, state = .file content := by
  cases state with
  | file content => exact ⟨content, rfl⟩
  | missing | denied | directory | notDirectory | nameTooLong | unnameable => cases h

theorem load_ok {p : Preamble} {found : Location → FileState} {logged : List Event}
    (h : p.load found = .ok (s, logged)) :
    (∀ location, p.config = some location → ∃ content, found location = .file content) ∧
      ∃ records : List Record, logged = records.map .log ∧
        ∀ record ∈ records, record.level = .debug := by
  unfold Preamble.load at h
  cases hconfig : p.config with
  | none =>
    rw [hconfig] at h
    cases h
    exact ⟨nofun, [], rfl, nofun⟩
  | some location =>
    rw [hconfig] at h
    dsimp only at h
    split at h
    · next settings hload =>
      cases h
      refine ⟨fun _ heq => ?_, [.loaded location.text s], rfl, ?_⟩
      · cases heq
        exact exists_content_of_load hload
      · intro record hrecord
        rw [List.mem_singleton.mp hrecord]
        rfl
    · cases h

/-- What general options tell every command. -/
def preamble (a : Arguments General) : Preamble :=
  ⟨a.has .verbose, (a.lastValue? .config).map Location.ofText⟩

/-- The settings file is admitted, or none is named. -/
def Admitted (rules : OptionRules) (found : Location → FileState) (p : Preamble) : Prop :=
  p.config.all (fun location => rules.admits (found location)) = true

/-- A settings file that can be read is admitted. -/
theorem admitted_of_load_ok {rules : OptionRules}
    (hrules : ∀ content, rules.admits (.file content) = true) {p : Preamble}
    {found : Location → FileState} {logged : List Event} (h : p.load found = .ok (s, logged)) :
    Admitted rules found p := by
  unfold Admitted
  cases hconfig : p.config with
  | none => rfl
  | some location =>
    obtain ⟨content, hfound⟩ := (load_ok h).1 location hconfig
    rw [Option.all_some, hfound]
    exact hrules content

theorem isOption_name (command : Command) : isOption command.name = false := by
  cases command <;> decide

/-- Behind general options that ask for no text a command is carried out. -/
theorem run_command {rules : OptionRules} {found : Location → FileState} {args : List String}
    {a : Arguments General} (hread : readArguments General.specs false args = some a)
    (heager : eager? a = none) (hadmitted : Admitted rules found (preamble a))
    {command : Command} {rest : List String} (hoperands : a.operands = command.name :: rest)
    (input : Input) :
    rules.run found input args = runCommand rules found input (preamble a) command rest := by
  rw [OptionRules.run, hread]
  dsimp only
  rw [heager]
  refine (if_pos hadmitted).trans ?_
  rw [hoperands]
  dsimp only
  rw [Command.ofName?_name]
  rfl

/-- A command behind general options that choose the settings is carried out under these
settings, with no records before it but those for debugging. -/
theorem run_chosen {rules : OptionRules} (hrules : ∀ content, rules.admits (.file content) = true)
    {found : Location → FileState} {front : List String} (hfront : Chooses found front s)
    (input : Input) (command : Command) (rest : List String) :
    ∃ (p : Preamble) (records : List Record), p.verbose = false ∧
      p.load found = .ok (s, records.map .log) ∧ (∀ record ∈ records, record.level = .debug) ∧
      rules.run found input (front ++ command.name :: rest) =
        runCommand rules found input p command rest := by
  obtain ⟨a, logged, hread, hall, heager, hverbose, hload⟩ := hfront
  obtain ⟨-, records, rfl, hrecords⟩ := load_ok hload
  have hadmitted := admitted_of_load_ok hrules hload
  have harguments := readArguments_append hread hall (isOption_name command) rest
  refine ⟨_, records, rfl, hload, hrecords, ?_⟩
  rw [← hverbose]
  exact run_command harguments heager hadmitted rfl input

end FrontEndsLemmas

/-- Whatever general options choose the settings, a command behind them does on an operand
what it does under these settings. -/
theorem run_alike_answer {found : Location → FileState} {front : List String}
    (hfront : Chooses found front s) (stdin : List UInt8) (command : Command)
    (hoperand : expression.toList.head? ≠ some '-') :
    (run found stdin (front ++ [command.name, expression])).Alike
      (answer s expression command) := by
  have hadmits : ∀ content, OptionRules.standard.admits (.file content) = true := fun _ => rfl
  obtain ⟨p, records, hverbose, hload, hrecords, hrun⟩ :=
    run_chosen hadmits hfront (.ofBytes stdin) command [expression]
  rw [run, hrun, runCommand, hload]
  dsimp only
  cases command with
  | repl =>
    rw [Command.read, readSession_operand hoperand]
    exact ⟨rfl, fun _ => rfl, fun _ => rfl⟩
  | eval | tokens | tree =>
    rw [Command.read, readExpression_operand _ hoperand, hverbose]
    exact alike_log hrecords _ _

/-! ## 4. Agreement -/

/-- The settings without a prompt and without echoes. -/
def silenced (s : Settings) : Settings :=
  { s with prompt := "", showTokens := false, showTree := false }

namespace FrontEndsLemmas

/-- The first line of a diagnostic is the message, whatever excerpt is shown below it. -/
theorem toList_diagnostic {fault : Fault} (h : Plain fault.message) (line : String) :
    ∃ more, (diagnostic (fault.notice line).display).toList =
      fault.message.toList ++ '\n' :: more := by
  have hescape : Text.escape ∉ fault.message.toList := h.not_mem (by decide)
  have hplain : (diagnostic fault.message).toList = fault.message.toList ++ ['\n'] := by
    rw [diagnostic, Text.dropControls_of_not_mem hescape, String.ofList_toList,
      String.toList_append]
    rfl
  cases fault with
  | parse | eval => exact ⟨[], hplain⟩
  | scan stop =>
    obtain ⟨excerpt, hdisplay⟩ : ∃ excerpt : Excerpt, ((Fault.scan stop).notice line).display =
        (Fault.scan stop).message ++ "\n" ++ excerpt.display := ⟨_, rfl⟩
    have hbelow (more : List Char) :
        Text.dropControls ('\n' :: more) = '\n' :: Text.dropControls more := by
      rw [Text.dropControls, if_neg (by decide)]
    rw [hdisplay, diagnostic, String.toList_append, String.toList_ofList, String.append_assoc,
      String.toList_append, Text.dropControls_append hescape, String.toList_append]
    show ∃ more, (_ ++ Text.dropControls ('\n' :: excerpt.display.toList)) ++ ['\n'] = _
    rw [hbelow, List.append_assoc]
    exact ⟨_, rfl⟩

theorem head?_lines_diagnostic {fault : Fault} (h : Plain fault.message) (line : String) :
    (Input.ofText (diagnostic (fault.notice line).display)).lines.head? =
      some (fault.message ++ "\n") := by
  obtain ⟨more, hchars⟩ := toList_diagnostic h line
  have hsplit : Text.splitLines (fault.message.toList ++ '\n' :: more) =
      (fault.message.toList ++ ['\n']) :: Text.splitLines more := by
    have hend : (fault.message.toList ++ ['\n']).getLast? = some '\n' := List.getLast?_concat
    rw [List.append_cons, Text.splitLines_append hend, Text.splitLines_line h.oneLine]
    rfl
  have hfirst : String.ofList (fault.message.toList ++ ['\n']) = fault.message ++ "\n" := by
    rw [← String.toList_inj, String.toList_ofList, String.toList_append]
    rfl
  rw [Input.ofText, hchars, hsplit]
  exact congrArg some hfirst

/-- A silent session on one line writes what the line is answered with. -/
theorem writes_session (hline : '\n' ∉ expression.toList) (hexit : isExit expression = false) :
    Session.writes (Session.run (silenced s) (Input.ofText (expression ++ "\n"))).1 =
      Session.block (silenced s) (expression ++ "\n") := by
  have hlines : (Input.ofText (expression ++ "\n")).lines = [expression ++ "\n"] := by
    rw [Input.ofText, String.toList_append]
    show (Text.splitLines (expression.toList ++ ['\n'])).map String.ofList = _
    rw [Text.splitLines_line hline, ← String.ofList_toList (s := expression ++ "\n"),
      String.toList_append]
    rfl
  have hevents : Session.promptEvents (silenced s) = [] := rfl
  have hexit' : isExit (expression ++ "\n") = false := by rw [isExit_newline, hexit]
  rw [Session.run, hlines]
  refine (Session.writes_runFrom (silenced s) 0 [expression ++ "\n"]).trans ?_
  rw [hevents, List.takeWhile_cons, hexit', Bool.not_false, if_pos rfl, List.takeWhile_nil]
  simp only [List.flatMap_cons, List.flatMap_nil, List.nil_append, List.append_nil]

/-- The value of a line is what a silent session writes for it and what `eval` shows. -/
theorem session_of_value {c : Calculation} (h : trace s.maxDepth expression = .ok c) :
    Session.block (silenced s) (expression ++ "\n") = [.out (Numeral.ofInt c.value ++ "\n")] ∧
      listing s expression .eval = .ok [Numeral.ofInt c.value ++ "\n"] := by
  have htrace : trace (silenced s).maxDepth (expression ++ "\n") =
      .ok { c with source := expression ++ "\n" } := by
    show trace s.maxDepth (expression ++ "\n") = _
    rw [trace_newline, h]
    rfl
  constructor
  · rw [Session.block_of_value htrace]
    rfl
  · rw [listing, calculate_eq_trace, h]
    rfl

/-- The fault of a line is what a silent session tells of it and what `eval` ends with. -/
theorem session_of_fault {fault : Fault} (h : trace s.maxDepth expression = .error fault) :
    Session.block (silenced s) (expression ++ "\n") = [.err (fault.message ++ "\n")] ∧
      listing s expression .eval = .error fault := by
  have htrace : trace (silenced s).maxDepth (expression ++ "\n") = .error fault := by
    show trace s.maxDepth (expression ++ "\n") = _
    rw [trace_newline, h]
    rfl
  constructor
  · exact Session.block_of_fault htrace
  · rw [listing, calculate_eq_trace, h]
    rfl

end FrontEndsLemmas

/-- Let an expression be one line that is neither an option nor the exit command. Any command
line whose general options choose the settings does with it what the command does under
them. A fault that `tokens` ends with is the one that `tree` and `eval` end with, and a fault
that `tree` ends with is the one that `eval` ends with, in the same words on standard error.
Each of the three ends with status one and nothing on standard output or with status zero and
nothing on standard error. A silent session on the line writes what `eval` writes on standard
output, or else the first line of what it writes on standard error. -/
theorem front_ends_agree (s : Settings) {e : String} (hline : '\n' ∉ e.toList)
    (hoperand : e.toList.head? ≠ some '-') (hexit : isExit e = false) :
    let tokens := answer s e .tokens
    let tree := answer s e .tree
    let eval := answer s e .eval
    let session := Session.writes (Session.run (silenced s) (Input.ofText (e ++ "\n"))).1
    (∀ found front stdin command, Chooses found front s →
      (run found stdin (front ++ [command.name, e])).Alike (answer s e command)) ∧
    (tokens.status = 1 →
      (tree.status = 1 ∧ ∀ stamp, tree.stderr stamp = tokens.stderr stamp) ∧
      (eval.status = 1 ∧ ∀ stamp, eval.stderr stamp = tokens.stderr stamp)) ∧
    (tree.status = 1 → eval.status = 1 ∧ ∀ stamp, eval.stderr stamp = tree.stderr stamp) ∧
    (∀ o ∈ [tokens, tree, eval], (o.status = 0 ∧ ∀ stamp, o.stderr stamp = "") ∨
      (o.status = 1 ∧ ∀ env, o.stdout env = "")) ∧
    (eval.status = 0 → ∀ env, session = [.out (eval.stdout env)]) ∧
    (eval.status ≠ 0 → ∀ stamp, ∃ first,
      (Input.ofText (eval.stderr stamp)).lines.head? = some first ∧ session = [.err first]) := by
  intro tokens tree eval session
  refine ⟨?_, ?_, ?_, ?_, ?_, ?_⟩
  · intro found front stdin command hfront
    exact run_alike_answer hfront stdin command hoperand
  · intro htokens
    exact ⟨fails_alike nofun nofun (fun _ => listing_tree_of_tokens) htokens,
      fails_alike nofun nofun (fun _ h => listing_eval_of_tree (listing_tree_of_tokens h)) htokens⟩
  · intro htree
    exact fails_alike nofun nofun (fun _ => listing_eval_of_tree) htree
  · intro o ho
    obtain ⟨command, hcommand, rfl⟩ : ∃ command ≠ Command.repl, answer s e command = o := by
      simp only [List.mem_cons, List.not_mem_nil, or_false] at ho
      rcases ho with rfl | rfl | rfl
      · exact ⟨.tokens, nofun, rfl⟩
      · exact ⟨.tree, nofun, rfl⟩
      · exact ⟨.eval, nofun, rfl⟩
    cases hlisting : listing s e command with
    | ok texts =>
      have hshows := shows_of_ok hlisting hcommand
      exact .inl ⟨hshows.status, hshows.stderr⟩
    | error fault =>
      have hshows := shows_of_error hlisting hcommand
      exact .inr ⟨hshows.status, hshows.stdout⟩
  · intro heval env
    cases htrace : trace s.maxDepth e with
    | ok c =>
      obtain ⟨hblock, hlisting⟩ := session_of_value htrace
      have hshows := shows_of_ok hlisting nofun
      rw [hshows.stdout, String.join_cons, String.join_nil, String.append_empty]
      exact (writes_session hline hexit).trans hblock
    | error fault =>
      have hshows := shows_of_error (session_of_fault htrace).2 nofun
      have hstatus : 0 = 1 := heval.symm.trans hshows.status
      cases hstatus
  · intro heval stamp
    cases htrace : trace s.maxDepth e with
    | ok c =>
      have hshows := shows_of_ok (session_of_value htrace).2 nofun
      exact absurd hshows.status heval
    | error fault =>
      obtain ⟨hblock, hlisting⟩ := session_of_fault htrace
      have hshows := shows_of_error hlisting nofun
      refine ⟨fault.message ++ "\n", ?_, (writes_session hline hexit).trans hblock⟩
      rw [hshows.stderr]
      exact head?_lines_diagnostic (plain_message htrace) e

/-- The letter in `x` is no token, so that all three commands end with the same diagnostic, and
a session tells its first line. -/
theorem front_ends_agree_letter :
    let found : Location → FileState := fun _ => .missing
    Chooses found [] .initial ∧
      (run found [] ["tokens", "x"]).status = 1 ∧
      (∀ stamp, (run found [] ["eval", "x"]).stderr stamp =
        (run found [] ["tokens", "x"]).stderr stamp) ∧
      Session.writes (Session.run (silenced .initial) (Input.ofText "x\n")).1 =
        [.err "Invalid token 'x' at index: 1\n"] := by
  intro found
  have hchooses : Chooses found [] .initial := ⟨⟨[], []⟩, [], rfl, rfl, rfl, rfl, rfl⟩
  have hscan : Token.scan "x" = .error ⟨.invalid 'x', 1⟩ := by
    show Token.scanFrom 1 ['x'] = _
    rw [Token.scanFrom.eq_def]
    rfl
  have hlisting : listing .initial "x" .tokens = .error (.scan ⟨.invalid 'x', 1⟩) := by
    rw [listing, scan, hscan]
    rfl
  have htokens := shows_of_error hlisting nofun
  obtain ⟨hrun, hfails, -, -, -, hsession⟩ :=
    front_ends_agree .initial (e := "x") (by decide) (by decide) (by decide)
  obtain ⟨-, heval, hsame⟩ := hfails htokens.status
  refine ⟨hchooses, ?_, fun stamp => ?_, ?_⟩
  · exact (hrun found [] [] .tokens hchooses).status.trans htokens.status
  · exact ((hrun found [] [] .eval hchooses).stderr stamp).trans
      ((hsame stamp).trans ((hrun found [] [] .tokens hchooses).stderr stamp).symm)
  · have hstop : (answer .initial "x" .eval).status ≠ 0 := by
      rw [heval]
      decide
    obtain ⟨first, hfirst, hwrites⟩ := hsession hstop ""
    have hplain : Plain (Fault.scan ⟨.invalid 'x', 1⟩).message := LinesLemmas.plain_scanMessage _
    rw [hsame, htokens.stderr, head?_lines_diagnostic hplain] at hfirst
    have hmessage : (Fault.scan ⟨.invalid 'x', 1⟩).message ++ "\n" =
        "Invalid token 'x' at index: 1\n" := by decide +kernel
    rw [← hmessage, Option.some.inj hfirst]
    exact hwrites

end CommandLine

end Abacus
