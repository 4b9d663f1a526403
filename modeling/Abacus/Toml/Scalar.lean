import Abacus.Text.Hex
import Abacus.Toml.Reader
import Abacus.Toml.Value

/-!
# TOML numbers, dates and times

A reader of this module answers with the value at the start of a text and the
rest of the text, or with nothing when the text starts with no such value.
Digits may have single underscores between them. Integers have four notations,
and only the decimal one is limited in length.
-/

namespace Abacus.Toml

/-- The rest of a text that starts with a word. -/
def after? : (word : List Char) → List Char → Option (List Char)
  | [], cs => some cs
  | _ :: _, [] => none
  | w :: word, c :: cs => if w = c then after? word cs else none

/-- The longest run of characters of a class, with single underscores between
them, that a text starts with. The underscores are left out. -/
def readRun (class? : Char → Bool) (cs : List Char) : List Char × List Char :=
  match cs with
  | [] => ([], [])
  | c :: tail =>
    if class? c then
      match tail with
      | '_' :: d :: rest =>
        if class? d then
          let (run, rest) := readRun class? (d :: rest)
          (c :: run, rest)
        else ([c], tail)
      | tail =>
        let (run, rest) := readRun class? tail
        (c :: run, rest)
    else ([], c :: tail)
termination_by cs.length

/-- True of the digits of a base of at most sixteen. -/
def isDigitOf (base : Nat) (c : Char) : Bool := (Text.hexValue? c).any (· < base)

/-- The bases of integers other than ten, by the letter after the zero. -/
def bases : List (Char × Nat) := [('x', 16), ('o', 8), ('b', 2)]

/-- Reads an integer in hexadecimal, octal or binary notation. -/
def readMarked? : List Char → Option (Nat × List Char)
  | '0' :: letter :: cs =>
    match bases.lookup letter with
    | some base =>
      match readRun (isDigitOf base) cs with
      | ([], _) => none
      | (ds, rest) => some (Numeral.ofValues base (ds.filterMap Text.hexValue?), rest)
    | none => none
  | _ => none

/-- Reads a sign. The first component is true of a minus sign. -/
def readSign : List Char → Bool × List Char
  | '-' :: cs => (true, cs)
  | '+' :: cs => (false, cs)
  | cs => (false, cs)

/-- Reads the whole part of a decimal number: a zero, or digits that do not
start with one. -/
def readWhole? : List Char → Option (List Char × List Char)
  | '0' :: cs => some (['0'], cs)
  | cs =>
    match readRun Numeral.isDigit cs with
    | ([], _) => none
    | found => some found

/-- Reads a point and the digits after it. -/
def readFraction (cs : List Char) : List Char × List Char :=
  match cs with
  | '.' :: tail =>
    match readRun Numeral.isDigit tail with
    | ([], _) => ([], cs)
    | found => found
  | _ => ([], cs)

/-- Reads the exponent of a decimal number. -/
def readExponent? : List Char → Option (Int × List Char)
  | c :: cs =>
    if c = 'e' ∨ c = 'E' then
      let (negative, cs) := readSign cs
      match readRun Numeral.isDigit cs with
      | ([], _) => none
      | (ds, rest) => some (if negative then -(Numeral.value ds : Int) else Numeral.value ds, rest)
    else none
  | [] => none

/-- Reads a decimal number: an integer, unless a fraction or an exponent follows.
Only an integer is limited in its length. -/
def readDecimal? (cs : List Char) : Option (Except Fault Value × List Char) :=
  let (negative, body) := readSign cs
  match readWhole? body with
  | none => none
  | some (whole, tail) =>
    let (fraction, tail) := readFraction tail
    match fraction, readExponent? tail with
    | [], none =>
      let v : Int := Numeral.value whole
      if Numeral.maxLength < whole.length then some (.error (.integerTooLong whole.length), tail)
      else some (.ok (.integer (if negative then -v else v)), tail)
    | fraction, exponent =>
      let (e, tail) := exponent.getD (0, tail)
      some (.ok (.real (.ofDecimal negative (Numeral.value (whole ++ fraction))
        (e - fraction.length))), tail)

/-- Reads infinity or the undefined number. -/
def readSpecial? (cs : List Char) : Option (Binary64 × List Char) :=
  let (negative, body) := readSign cs
  match after? ['i', 'n', 'f'] body, after? ['n', 'a', 'n'] body with
  | some rest, _ => some (.infinite negative, rest)
  | none, some rest => some (.nan, rest)
  | none, none => none

/-! ## Dates and times -/

/-- Reads two digits that denote a number in a range. -/
def readTwo? (low high : Nat) : List Char → Option (Nat × List Char)
  | a :: b :: cs =>
    if Numeral.isDigit a && Numeral.isDigit b && low ≤ Numeral.value [a, b] &&
        Numeral.value [a, b] ≤ high then
      some (Numeral.value [a, b], cs)
    else none
  | _ => none

def readChar? (c : Char) : List Char → Option (List Char)
  | d :: cs => if c = d then some cs else none
  | [] => none

/-- Reads a time: hours, minutes, seconds, and perhaps a fraction. -/
def readTime? (cs : List Char) : Option (List Char) := do
  let (_, cs) ← readTwo? 0 23 cs
  let cs ← readChar? ':' cs
  let (_, cs) ← readTwo? 0 59 cs
  let cs ← readChar? ':' cs
  let (_, cs) ← readTwo? 0 59 cs
  match cs with
  | '.' :: d :: tail =>
    if Numeral.isDigit d then return tail.dropWhile Numeral.isDigit else return cs
  | _ => return cs

/-- Reads the offset of a time from universal time, if there is one. -/
def readOffset (cs : List Char) : List Char :=
  match cs with
  | 'Z' :: tail | 'z' :: tail => tail
  | sign :: tail =>
    if sign = '+' ∨ sign = '-' then
      let offset : Option (List Char) := do
        let (_, cs) ← readTwo? 0 23 tail
        let cs ← readChar? ':' cs
        let (_, cs) ← readTwo? 0 59 cs
        return cs
      offset.getD cs
    else cs
  | [] => cs

/-- The number of days in a month. -/
def daysIn (year month : Nat) : Nat :=
  if month = 2 then
    if year % 4 = 0 ∧ (year % 100 ≠ 0 ∨ year % 400 = 0) then 29 else 28
  else if month = 4 ∨ month = 6 ∨ month = 9 ∨ month = 11 then 30
  else 31

/-- Reads a date, with the time of the day if there is one. The answer is a
fault for a day that does not exist. -/
def readDate? (cs : List Char) : Option (Except Fault Value × List Char) := do
  let (century, cs) ← readTwo? 0 99 cs
  let (year, cs) ← readTwo? 0 99 cs
  let cs ← readChar? '-' cs
  let (month, cs) ← readTwo? 1 12 cs
  let cs ← readChar? '-' cs
  let (day, cs) ← readTwo? 1 31 cs
  let year := 100 * century + year
  let exists? := 1 ≤ year && day ≤ daysIn year month
  let time? : Option (List Char) :=
    match cs with
    | 'T' :: tail | 't' :: tail | ' ' :: tail => readTime? tail
    | _ => none
  let rest := (time?.map readOffset).getD cs
  return (if exists? then .ok .moment else .error .invalid, rest)

/-! ## Scalars -/

/-- Reads a value that is neither a string nor holds other values. -/
def readScalar? (cs : List Char) : Option (Except Fault Value × List Char) :=
  match after? ['t', 'r', 'u', 'e'] cs, after? ['f', 'a', 'l', 's', 'e'] cs with
  | some rest, _ => some (.ok (.boolean true), rest)
  | none, some rest => some (.ok (.boolean false), rest)
  | none, none =>
    (readDate? cs).or <|
    ((readTime? cs).map fun rest => (.ok .moment, rest)).or <|
    ((readMarked? cs).map fun (n, rest) => (.ok (.integer n), rest)).or <|
    (readDecimal? cs).or <|
    (readSpecial? cs).map fun (x, rest) => (.ok (.real x), rest)

end Abacus.Toml
