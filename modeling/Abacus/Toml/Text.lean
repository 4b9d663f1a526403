import Abacus.Text.Hex
import Abacus.Toml.Reader

/-!
# TOML strings and keys

Basic strings stand between double quotes and know escapes, literal strings
stand between single quotes and know none. Either may be tripled to hold
several lines. A key is a sequence of parts with points between them, each a
bare word or a string.
-/

namespace Abacus.Toml

/-- The number that exactly `width` hexadecimal digits denote, and what follows. -/
def readHex : (width : Nat) → (n : Nat) → List Char → Option (Nat × List Char)
  | 0, n, cs => some (n, cs)
  | _ + 1, _, [] => none
  | width + 1, n, c :: cs =>
    match Text.hexValue? c with
    | some d => readHex width (16 * n + d) cs
    | none => none

theorem length_readHex {width n m : Nat} {cs rest : List Char}
    (h : readHex width n cs = some (m, rest)) : rest.length ≤ cs.length := by
  induction width generalizing n cs with
  | zero =>
    cases h
    exact Nat.le_refl _
  | succ width ih =>
    cases cs with
    | nil => cases h
    | cons c cs =>
      rw [readHex] at h
      split at h
      · exact Nat.le_succ_of_le (ih h)
      · cases h

/-- The character of an escape with `width` hexadecimal digits. -/
def readCodePoint (width : Nat) (cs : List Char) : Result (Option Char) (cs.length + 1) :=
  match h : readHex width 0 cs with
  | some (n, rest) =>
    if n.isValidChar then
      .ok ⟨some (Char.ofNat n), rest, Nat.lt_succ_of_le (length_readHex h)⟩
    else .error .invalid
  | none => .error .invalid

/-- The character that a letter stands for after a backslash. -/
def escapes : List (Char × Char) :=
  [('b', '\x08'), ('t', '\t'), ('n', '\n'), ('f', '\x0c'), ('r', '\r'), ('"', '"'), ('\\', '\\')]

/-- Reads what follows a backslash. In a string of several lines, a backslash at
the end of a line stands for nothing and swallows the blanks after it. -/
def readEscape (inLines : Bool) (cs : List Char) : Result (Option Char) (cs.length + 1) :=
  match cs with
  | 'u' :: tail =>
    match readCodePoint 4 tail with
    | .ok part => .ok (part.widen (Nat.le_succ _))
    | .error fault => .error fault
  | 'U' :: tail =>
    match readCodePoint 8 tail with
    | .ok part => .ok (part.widen (Nat.le_succ _))
    | .error fault => .error fault
  | c :: tail =>
    match escapes.lookup c with
    | some escaped => .ok ⟨some escaped, tail, by simp only [List.length_cons]; omega⟩
    | none =>
      if inLines && isSpaceOrLine c then
        match (c :: tail).dropWhile isSpace with
        | [] => .ok ⟨none, [], by simp⟩
        | '\n' :: _ =>
          .ok ⟨none, (c :: tail).dropWhile isSpaceOrLine,
            Nat.lt_succ_of_le (List.dropWhile_suffix _).length_le⟩
        | _ => .error .invalid
      else .error .invalid
  | [] => .error .invalid

/-- Up to two quotes that follow the end of a tripled string and belong to it. -/
def extraQuotes (quote : Char) (cs : List Char) : Part (List Char) (cs.length + 1) :=
  match cs with
  | a :: b :: tail =>
    if a = quote then
      if b = quote then ⟨[quote, quote], tail, by simp only [List.length_cons]; omega⟩
      else ⟨[quote], b :: tail, by simp only [List.length_cons]; omega⟩
    else ⟨[], a :: b :: tail, Nat.lt_succ_self _⟩
  | [a] => if a = quote then ⟨[quote], [], by simp⟩ else ⟨[], [a], Nat.lt_succ_self _⟩
  | [] => ⟨[], [], Nat.lt_succ_self _⟩

/-- The character in front of a text that was read. -/
private def prepend {bound : Nat} (c : Char) : Result (List Char) bound → Result (List Char) bound
  | .ok part => .ok (part.map (c :: ·))
  | .error fault => .error fault

def weaken {α : Type} {a b : Nat} (h : a ≤ b) : Result α a → Result α b
  | .ok part => .ok (part.widen h)
  | .error fault => .error fault

theorem prepend_eq_error {bound : Nat} {c : Char} {r : Result (List Char) bound} {fault : Fault} :
    prepend c r = .error fault ↔ r = .error fault := by
  cases r <;> simp [prepend]

theorem weaken_eq_error {α : Type} {a b : Nat} {h : a ≤ b} {r : Result α a} {fault : Fault} :
    weaken h r = .error fault ↔ r = .error fault := by
  cases r <;> simp [weaken]

/-- Reads a basic string after its opening quote. -/
def readBasic (cs : List Char) : Result (List Char) cs.length :=
  match cs with
  | [] => .error .invalid
  | '"' :: tail => .ok ⟨[], tail, Nat.lt_succ_self _⟩
  | '\\' :: tail =>
    match readEscape false tail with
    | .ok escape =>
      match readBasic escape.rest with
      | .ok part =>
        .ok ((part.map (escape.value.toList ++ ·)).widen (by
          have := escape.length_rest_lt
          simp only [List.length_cons]
          omega))
      | .error fault => .error fault
    | .error fault => .error fault
  | c :: tail =>
    if isControl c then .error .invalid
    else weaken (Nat.le_succ _) (prepend c (readBasic tail))
termination_by cs.length
decreasing_by
  · exact escape.length_rest_lt
  · exact Nat.lt_succ_self _

/-- Reads a basic string of several lines after its opening quotes. -/
def readBasicLines (cs : List Char) : Result (List Char) cs.length :=
  match cs with
  | [] => .error .invalid
  | '"' :: '"' :: '"' :: tail =>
    .ok ((extraQuotes '"' tail).widen (Nat.le_add_right _ 2))
  | '\\' :: tail =>
    match readEscape true tail with
    | .ok escape =>
      match readBasicLines escape.rest with
      | .ok part =>
        .ok ((part.map (escape.value.toList ++ ·)).widen (by
          have := escape.length_rest_lt
          simp only [List.length_cons]
          omega))
      | .error fault => .error fault
    | .error fault => .error fault
  | c :: tail =>
    if isControlInLines c then .error .invalid
    else weaken (Nat.le_succ _) (prepend c (readBasicLines tail))
termination_by cs.length
decreasing_by
  · exact escape.length_rest_lt
  · exact Nat.lt_succ_self _

/-- Reads a literal string after its opening quote. -/
def readLiteral (cs : List Char) : Result (List Char) cs.length :=
  match cs with
  | [] => .error .invalid
  | '\'' :: tail => .ok ⟨[], tail, Nat.lt_succ_self _⟩
  | c :: tail =>
    if isControl c then .error .invalid
    else weaken (Nat.le_succ _) (prepend c (readLiteral tail))

/-- Reads a literal string of several lines after its opening quotes. -/
def readLiteralLines (cs : List Char) : Result (List Char) cs.length :=
  match cs with
  | [] => .error .invalid
  | '\'' :: '\'' :: '\'' :: tail =>
    .ok ((extraQuotes '\'' tail).widen (Nat.le_add_right _ 2))
  | c :: tail =>
    if isControlInLines c then .error .invalid
    else weaken (Nat.le_succ _) (prepend c (readLiteralLines tail))

/-- A text without the line feed it starts with, if it does start with one. -/
def dropLineFeed (cs : List Char) : { rest : List Char // rest.length ≤ cs.length } :=
  match cs with
  | '\n' :: tail => ⟨tail, Nat.le_succ _⟩
  | cs => ⟨cs, Nat.le_refl _⟩

/-- Reads a string of any of the four kinds. -/
def readText (cs : List Char) : Result (List Char) cs.length :=
  match cs with
  | '"' :: '"' :: '"' :: tail =>
    let body := dropLineFeed tail
    weaken (by have := body.property; simp only [List.length_cons]; omega)
      (readBasicLines body.val)
  | '\'' :: '\'' :: '\'' :: tail =>
    let body := dropLineFeed tail
    weaken (by have := body.property; simp only [List.length_cons]; omega)
      (readLiteralLines body.val)
  | '"' :: tail => weaken (Nat.le_succ _) (readBasic tail)
  | '\'' :: tail => weaken (Nat.le_succ _) (readLiteral tail)
  | _ => .error .invalid

/-! ## Keys -/

/-- True of the characters of a bare word. -/
def isBare (c : Char) : Bool :=
  ('a' ≤ c && c ≤ 'z') || ('A' ≤ c && c ≤ 'Z') || ('0' ≤ c && c ≤ '9') || c == '-' || c == '_'

/-- True of the characters that a key may start with. -/
def startsKey (c : Char) : Bool := isBare c || c == '"' || c == '\''

/-- Reads one part of a key. Its strings hold one line. -/
def readKeyPart (cs : List Char) : Result String cs.length :=
  match cs with
  | '"' :: tail =>
    match readBasic tail with
    | .ok part => .ok ((part.map String.ofList).widen (Nat.le_succ _))
    | .error fault => .error fault
  | '\'' :: tail =>
    match readLiteral tail with
    | .ok part => .ok ((part.map String.ofList).widen (Nat.le_succ _))
    | .error fault => .error fault
  | c :: tail =>
    if isBare c then
      .ok ⟨String.ofList (c :: tail.takeWhile isBare), tail.dropWhile isBare,
        Nat.lt_succ_of_le (List.dropWhile_suffix _).length_le⟩
    else .error .invalid
  | [] => .error .invalid

/-- A key: the parts that lead to a table, and the part that names an entry of it. -/
structure Key where
  parents : List String
  stem : String

def Key.path (key : Key) : List String := key.parents ++ [key.stem]

/-- Reads a key and the blanks after it. -/
def readKey (cs : List Char) : Result Key cs.length :=
  match readKeyPart cs with
  | .error fault => .error fault
  | .ok first =>
    match h : first.rest.dropWhile isSpace with
    | '.' :: tail =>
      match readKey (tail.dropWhile isSpace) with
      | .error fault => .error fault
      | .ok key =>
        .ok ((key.map fun k => ⟨first.value :: k.parents, k.stem⟩).widen (by
          have h₁ := (List.dropWhile_suffix (l := tail) isSpace).length_le
          have h₂ := (first.skip isSpace).length_rest_lt
          simp only [Part.skip, h, List.length_cons] at h₂
          omega))
    | rest => .ok ⟨⟨[], first.value⟩, rest, h ▸ (first.skip isSpace).length_rest_lt⟩
termination_by cs.length
decreasing_by
  have h₁ := (List.dropWhile_suffix (l := tail) isSpace).length_le
  have h₂ := (first.skip isSpace).length_rest_lt
  simp only [Part.skip, h, List.length_cons] at h₂
  omega

end Abacus.Toml
