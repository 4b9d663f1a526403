/-!
# Terminal control sequences

A control sequence is an escape character, an opening bracket, any number of
digits, semicolons and question marks, and a letter. It moves a cursor or
changes a colour on a terminal and is only noise elsewhere, so diagnostics that
echo the input drop it. Main statement: `dropControls_append`, what stands in
front of the first escape character is left alone.
-/

namespace Abacus.Text

def escape : Char := '\x1b'

/-- True of the characters between the bracket and the letter. -/
def isControlParameter (c : Char) : Bool :=
  c == ';' || c == '?' || ('0' ≤ c && c ≤ '9')

/-- True of the ASCII letters, which end a control sequence. -/
def isControlFinal (c : Char) : Bool :=
  ('a' ≤ c && c ≤ 'z') || ('A' ≤ c && c ≤ 'Z')

/-- The text after the control sequence that `cs` starts with, without its
escape character, if it does start with one. -/
def afterControl? : List Char → Option (List Char)
  | '[' :: cs =>
    match cs.dropWhile isControlParameter with
    | c :: rest => if isControlFinal c then some rest else none
    | [] => none
  | _ => none

theorem length_afterControl? {cs rest : List Char} (h : afterControl? cs = some rest) :
    rest.length < cs.length := by
  unfold afterControl? at h
  split at h
  · next cs =>
    split at h
    · next c tail hdrop =>
      split at h
      · obtain rfl := Option.some.inj h
        have hlen := (List.dropWhile_suffix (l := cs) isControlParameter).length_le
        rw [hdrop, List.length_cons] at hlen
        rw [List.length_cons]
        omega
      · exact absurd h (by simp)
    · exact absurd h (by simp)
  · exact absurd h (by simp)

/-- The text without its control sequences, read from left to right. -/
def dropControls : List Char → List Char
  | [] => []
  | c :: cs =>
    if c = escape then
      match _h : afterControl? cs with
      | some rest => dropControls rest
      | none => c :: dropControls cs
    else c :: dropControls cs
termination_by cs => cs.length
decreasing_by
  · have := length_afterControl? ‹_›
    simp only [List.length_cons]
    omega
  · simp
  · simp

/-- What stands in front of the first escape character is left alone. -/
theorem dropControls_append {cs : List Char} (h : escape ∉ cs) (more : List Char) :
    dropControls (cs ++ more) = cs ++ dropControls more := by
  induction cs with
  | nil => rfl
  | cons c cs ih =>
    rw [List.mem_cons, not_or] at h
    rw [List.cons_append, dropControls, if_neg (Ne.symm h.1), ih h.2, List.cons_append]

/-- A text without an escape character has no control sequences to drop. -/
theorem dropControls_of_not_mem {cs : List Char} (h : escape ∉ cs) : dropControls cs = cs := by
  have hall := dropControls_append h []
  rw [List.append_nil, dropControls, List.append_nil] at hall
  exact hall

end Abacus.Text
