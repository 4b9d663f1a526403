import Abacus.Proofs.Transcript

/-!
# Sessions that are cut short

A session asks for one line after the other, and the reads are numbered from zero. Here
the reads of a session fail from some number on, and what it writes is compared with what
it writes when none fails.

Results:
1. `answer_failingFrom`: the input whose reads fail from some number on answers all
   earlier reads as before.
2. `answer_lastRead`: the last read of a session meets the exit command or the end of the
   input, and all reads before it a line to be answered.
3. `run_failingFrom`: a failure after the last read changes nothing. One at an earlier read
   ends the session after the prompt for that read, with all lines before it answered.
-/

namespace Abacus

open Calculator

/-! ## 1. Reads -/

/-- What a read answers with. -/
inductive Answer where
  | line (text : String)
  | stop (ending : Ending)
  deriving DecidableEq, Repr

namespace Input

variable {input : Input} {n read : Nat} {message : String}

/-- The answer to a read, of which the first has number zero. Behind the lines every read
meets the ending. -/
def answer (input : Input) (read : Nat) : Answer :=
  match input.lines[read]? with
  | some line => .line line
  | none => .stop input.ending

/-- The number of the last read of a session, which stops at the first exit line. -/
def lastRead (input : Input) : Nat := input.lines.findIdx isExit

/-- A failure from read number `n` on is met by that read and all later ones, and the
reads before it are answered as ever. Reads behind the end of the input do not matter. -/
theorem answer_failingFrom (h : read ≤ input.lines.length) :
    (input.failingFrom n message).answer read =
      if n ≤ read then .stop (.failure message) else input.answer read := by
  unfold failingFrom answer
  by_cases hn : n ≤ input.lines.length
  · rw [if_pos hn, List.getElem?_take]
    by_cases hread : n ≤ read
    · rw [if_neg (Nat.not_lt.mpr hread), if_pos hread]
    · have hlt : read < input.lines.length := Nat.lt_of_lt_of_le (Nat.lt_of_not_le hread) hn
      rw [if_pos (Nat.lt_of_not_le hread), if_neg hread, List.getElem?_eq_getElem hlt]
  · have hread : ¬ n ≤ read := fun hread => hn (Nat.le_trans hread h)
    rw [if_neg hn, if_neg hread]

/-- All reads before the last one meet a line to be answered, and the last one the exit
command or the end of the input. -/
theorem answer_lastRead (input : Input) :
    (∀ read < input.lastRead, ∃ line, input.answer read = .line line ∧ isExit line = false) ∧
    ((∃ line, input.answer input.lastRead = .line line ∧ isExit line = true) ∨
      input.answer input.lastRead = .stop input.ending) := by
  constructor
  · intro read hread
    have hlt : read < input.lines.length := Nat.lt_of_lt_of_le hread List.findIdx_le_length
    refine ⟨input.lines[read], ?_, List.not_of_lt_findIdx hread⟩
    rw [answer, List.getElem?_eq_getElem hlt]
  · by_cases hexit : input.lastRead < input.lines.length
    · refine .inl ⟨input.lines[input.lastRead], ?_, List.findIdx_getElem⟩
      rw [answer, List.getElem?_eq_getElem hexit]
    · refine .inr ?_
      rw [answer, List.getElem?_eq_none (Nat.le_of_not_lt hexit)]

end Input

namespace Session

open TranscriptLemmas

/-! ## 2. Runs and their lines -/

/-- What a session writes that answers these lines and asks for one more. -/
def asked (s : Settings) (lines : List String) : List Event :=
  lines.flatMap (fun line => promptEvents s ++ block s line) ++ promptEvents s

variable {s : Settings} {ending : Ending} {count : Nat} {lines : List String}

theorem asked_prefix (s : Settings) {lines' : List String} (h : lines <+: lines') :
    asked s lines <+: asked s lines' := by
  obtain ⟨more, rfl⟩ := h
  unfold asked
  rw [List.flatMap_append, List.append_assoc, List.prefix_append_right_inj]
  cases more with
  | nil => exact List.prefix_rfl
  | cons line more =>
    rw [List.flatMap_cons, List.append_assoc, List.append_assoc]
    exact List.prefix_append _ _

/-- A session that meets no exit line answers every line and asks for one more, and the
rest is said by how its input ends. -/
theorem writes_runFrom_of_no_exit (h : ∀ line ∈ lines, isExit line = false) :
    writes (runFrom s ending count lines).1 =
        asked s lines ++ writes (endingEvents (count + lines.length) ending) ∧
      (runFrom s ending count lines).2 = endingStatus ending := by
  induction lines generalizing count with
  | nil =>
    refine ⟨?_, rfl⟩
    show writes (promptEvents s ++ endingEvents count ending) = _
    rw [writes_append, writes_promptEvents]
    rfl
  | cons line lines ih =>
    have hline := h line List.mem_cons_self
    obtain ⟨hwrites, hstatus⟩ := @ih (count + 1) fun l hl => h l (List.mem_cons_of_mem _ hl)
    rw [runFrom, hline]
    refine ⟨?_, hstatus⟩
    show writes (promptEvents s ++ lineEvents s line ++ (runFrom s ending (count + 1) lines).1) = _
    rw [writes_append, writes_append, writes_promptEvents, hwrites, asked, asked,
      List.flatMap_cons, List.length_cons, Nat.add_comm lines.length, ← Nat.add_assoc]
    simp only [List.append_assoc]
    rfl

/-- On an input that ends, a session answers the lines before its last read. -/
theorem writes_run {input : Input} (h : input.ending = .eof) :
    writes (run s input).1 = asked s (input.lines.take input.lastRead) := by
  rw [run, h, writes_runFrom, List.takeWhile_eq_take_findIdx_not]
  simp only [Bool.not_not]
  rfl

/-! ## 3. Failing reads -/

namespace InterruptionLemmas

variable {input : Input} {n : Nat} {message : String}

/-- A failure after the last read is not met. -/
theorem run_failingFrom_of_lt (h : input.lastRead < n) :
    run s (input.failingFrom n message) = run s input := by
  unfold Input.failingFrom
  split
  · next hn =>
    have hlt : input.lastRead < input.lines.length := Nat.lt_of_lt_of_le h hn
    have hexit : ∃ line ∈ input.lines.take n, isExit line = true :=
      ⟨input.lines[input.lastRead], List.mem_take_iff_getElem.mpr ⟨input.lastRead, by omega, rfl⟩,
        List.findIdx_getElem⟩
    have hlines : runFrom s input.ending 0 (input.lines.take n ++ input.lines.drop n) =
        runFrom s (.failure message) 0 (input.lines.take n) := runFrom_append hexit _
    rw [List.take_append_drop] at hlines
    exact hlines.symm
  · rfl

/-- A failure at the last read or an earlier one ends the session there. -/
theorem run_failingFrom_of_le (h : n ≤ input.lastRead) :
    writes (run s (input.failingFrom n message)).1 =
        asked s (input.lines.take n) ++ [.err (inputError message ++ "\n")] ∧
      (run s (input.failingFrom n message)).2 = statusInputError := by
  have hn : n ≤ input.lines.length := Nat.le_trans h List.findIdx_le_length
  have hnone : ∀ line ∈ input.lines.take n, isExit line = false := by
    intro line hline
    obtain ⟨read, hread, rfl⟩ := List.mem_take_iff_getElem.mp hline
    have hearlier : read < input.lastRead := by omega
    exact List.not_of_lt_findIdx hearlier
  rw [Input.failingFrom, if_pos hn]
  exact writes_runFrom_of_no_exit hnone

end InterruptionLemmas

open InterruptionLemmas

/-- The last read of a session on a text is the first one that meets the exit command or
the end. Let the reads fail with a message from read number `n` on. After the last read of
the session that changes nothing. Otherwise the session writes what it writes
without the failure up to and with the prompt for read number `n`, all answers to the lines
before it included, then one line with the message on standard error, and ends with status
one. -/
theorem run_failingFrom (s : Settings) (text : String) (n : Nat) (message : String) :
    ((∀ read < (Input.ofText text).lastRead,
        ∃ line, (Input.ofText text).answer read = .line line ∧ isExit line = false) ∧
      ((∃ line, (Input.ofText text).answer (Input.ofText text).lastRead = .line line ∧
          isExit line = true) ∨
        (Input.ofText text).answer (Input.ofText text).lastRead = .stop .eof)) ∧
    (∀ read ≤ (Input.ofText text).lines.length,
      ((Input.ofText text).failingFrom n message).answer read =
        if n ≤ read then .stop (.failure message) else (Input.ofText text).answer read) ∧
    ((Input.ofText text).lastRead < n →
      run s ((Input.ofText text).failingFrom n message) = run s (Input.ofText text)) ∧
    (n ≤ (Input.ofText text).lastRead →
      asked s ((Input.ofText text).lines.take n) <+: writes (run s (Input.ofText text)).1 ∧
      writes (run s ((Input.ofText text).failingFrom n message)).1 =
        asked s ((Input.ofText text).lines.take n) ++
          [.err ("Input Error: " ++ message ++ "\n")] ∧
      (run s ((Input.ofText text).failingFrom n message)).2 = 1) := by
  refine ⟨Input.answer_lastRead _, fun read => Input.answer_failingFrom, run_failingFrom_of_lt,
    fun h => ⟨?_, ?_⟩⟩
  · rw [writes_run rfl]
    exact asked_prefix s (List.take_prefix_take_left h)
  · exact run_failingFrom_of_le h

end Session

end Abacus
