/-!
# Reading TOML

What a reader of a part of a TOML text answers: the part and the rest of the
text, or why there is no such part. A reader is given the length that the rest
stays below, so that reading part after part comes to an end.
-/

namespace Abacus.Toml

/-- Why a text is not read. -/
inductive Fault where
  | invalid
  /-- A decimal integer has too many digits to be read. -/
  | integerTooLong (digits : Nat)
  deriving DecidableEq, Repr

/-- A part read off the front of a text, and the rest of the text. -/
structure Part (α : Type) (bound : Nat) where
  value : α
  rest : List Char
  length_rest_lt : rest.length < bound

namespace Part

def widen {α : Type} {a b : Nat} (p : Part α a) (h : a ≤ b) : Part α b :=
  ⟨p.value, p.rest, Nat.lt_of_lt_of_le p.length_rest_lt h⟩

def map {α β : Type} {bound : Nat} (f : α → β) (p : Part α bound) : Part β bound :=
  ⟨f p.value, p.rest, p.length_rest_lt⟩

/-- A part without the characters of a class that follow it. -/
def skip {α : Type} {bound : Nat} (class? : Char → Bool) (p : Part α bound) : Part α bound :=
  ⟨p.value, p.rest.dropWhile class?,
    Nat.lt_of_le_of_lt (List.dropWhile_suffix class?).length_le p.length_rest_lt⟩

end Part

/-- What reading a part of a text answers. -/
abbrev Result (α : Type) (bound : Nat) := Except Fault (Part α bound)

/-- True of the blanks inside a line. -/
def isSpace (c : Char) : Bool := c == ' ' || c == '\t'

/-- True of the blanks between the items of an array. -/
def isSpaceOrLine (c : Char) : Bool := isSpace c || c == '\n'

/-- True of the control characters that may stand nowhere: all but tab. -/
def isControl (c : Char) : Bool := (c.toNat < 0x20 || c.toNat == 0x7F) && c != '\t'

/-- True of the control characters that a text of several lines may not hold. -/
def isControlInLines (c : Char) : Bool := isControl c && c != '\n'

/-- The rest of a text after the comment it starts with, if it does start with
one. The line feed after the comment stays. -/
def skipComment (cs : List Char) : Except Fault (List Char) :=
  match cs with
  | '#' :: rest =>
    if (rest.takeWhile (· != '\n')).any isControl then .error .invalid
    else .ok (rest.dropWhile (· != '\n'))
  | _ => .ok cs

theorem length_skipComment {cs rest : List Char} (h : skipComment cs = .ok rest) :
    rest.length ≤ cs.length := by
  unfold skipComment at h
  split at h
  · split at h
    · cases h
    · cases h
      exact Nat.le_succ_of_le (List.dropWhile_suffix _).length_le
  · cases h
    exact Nat.le_refl _

/-- The rest of a text after the blanks, line feeds and comments it starts with. -/
def skipTrivia (cs : List Char) : Except Fault { rest : List Char // rest.length ≤ cs.length } :=
  match cs with
  | [] => .ok ⟨[], Nat.le_refl _⟩
  | c :: tail =>
    if isSpaceOrLine c then
      match skipTrivia tail with
      | .ok rest => .ok ⟨rest.val, Nat.le_succ_of_le rest.property⟩
      | .error fault => .error fault
    else if c == '#' then
      let after := tail.dropWhile (· != '\n')
      have h : after.length ≤ tail.length := (List.dropWhile_suffix _).length_le
      if (tail.takeWhile (· != '\n')).any isControl then .error .invalid
      else
        match skipTrivia after with
        | .ok rest => .ok ⟨rest.val, Nat.le_succ_of_le (Nat.le_trans rest.property h)⟩
        | .error fault => .error fault
    else .ok ⟨c :: tail, Nat.le_refl _⟩
termination_by cs.length
decreasing_by
  · exact Nat.lt_succ_self _
  · exact Nat.lt_succ_of_le h

end Abacus.Toml
