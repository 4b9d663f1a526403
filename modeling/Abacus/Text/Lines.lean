/-!
# Lines

A text as the sequence of its lines, each with its line feed, and the reading
of the three customary line ends as a line feed. Main statements:
`flatten_splitLines` (nothing is lost or added) and `carriageReturn_not_mem`
(no carriage return survives).
-/

namespace Abacus.Text

/-- The lines of a text, each with the line feed that ends it. The last line
has none when the text does not end in one. An empty text has no lines. -/
def splitLines : List Char → List (List Char)
  | [] => []
  | c :: cs =>
    if c = '\n' then [c] :: splitLines cs
    else
      match splitLines cs with
      | [] => [[c]]
      | line :: lines => (c :: line) :: lines

/-- Reads a carriage return, alone or with the line feed after it, as one line
feed. -/
def unifyLineEnds : List Char → List Char
  | [] => []
  | '\r' :: '\n' :: cs => '\n' :: unifyLineEnds cs
  | c :: cs => (if c = '\r' then '\n' else c) :: unifyLineEnds cs

/-- True of a line that ends in a line feed. -/
def isComplete (line : List Char) : Bool := line.getLast? == some '\n'

/-- The lines of a text, joined, are the text. -/
theorem flatten_splitLines (cs : List Char) : (splitLines cs).flatten = cs := by
  induction cs with
  | nil => rfl
  | cons c cs ih =>
    rw [splitLines]
    split
    · simp [ih]
    · split
      · next h =>
        rw [h] at ih
        simp [← ih]
      · next h =>
        rw [h] at ih
        simp [← ih]

theorem carriageReturn_not_mem (cs : List Char) : '\r' ∉ unifyLineEnds cs := by
  fun_induction unifyLineEnds cs with
  | case1 => simp
  | case2 cs ih => simpa using ih
  | case3 c cs h ih =>
    rw [List.mem_cons, not_or]
    refine ⟨?_, ih⟩
    split
    · decide
    · next hc => exact fun h => hc h.symm

theorem unifyLineEnds_of_not_mem {cs : List Char} (h : '\r' ∉ cs) : unifyLineEnds cs = cs := by
  fun_induction unifyLineEnds cs with
  | case1 => rfl
  | case2 cs ih => exact absurd List.mem_cons_self h
  | case3 c cs hpair ih =>
    rw [List.mem_cons, not_or] at h
    rw [if_neg fun hc => h.1 hc.symm, ih h.2]

theorem length_unifyLineEnds_le (cs : List Char) : (unifyLineEnds cs).length ≤ cs.length := by
  fun_induction unifyLineEnds cs with
  | case1 => exact Nat.le_refl _
  | case2 cs ih => exact Nat.le_succ_of_le (Nat.succ_le_succ ih)
  | case3 c cs h ih => exact Nat.succ_le_succ ih

end Abacus.Text
