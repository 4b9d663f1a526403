import Abacus.Number.Binary64
import Abacus.Settings.Entries
import Abacus.Text.Integer

/-!
# The values of settings

A field takes more than its own type: a number may be written as text, and a
flag as a word. Values of an entry are told apart only as far as that matters.
-/

namespace Abacus

/-- The value of an entry, as far as settings tell values apart. -/
inductive Setting where
  | text (s : String)
  | integer (v : Int)
  | real (x : Binary64)
  | flag (b : Bool)
  | null
  /-- A date, a list or a table. -/
  | compound
  deriving DecidableEq, Repr

/-- What is wrong with an entry. -/
inductive Objection where
  | notText
  | notInteger
  | notIntegerText
  /-- The text or number has too many digits. -/
  | oversizedInteger
  /-- The number is infinite or undefined. -/
  | notFinite
  | fractional
  | belowMinimum
  | notFlag
  /-- The value is not among those that stand for a flag. -/
  | unknownFlag
  | unknownName
  deriving DecidableEq, Repr

namespace Setting

/-- A text is taken as it is. -/
def toText : Setting → Except Objection String
  | .text s => .ok s
  | _ => .error .notText

/-- The least number that is too large for 64 bits of which one is the sign. -/
def wordLimit : Nat := Nat.pow 2 63

/-- The integer of a value: an integer, a flag as zero or one, a floating point
number of fewer than 64 bits without a fraction, or the text of an integer. -/
def toInteger : Setting → Except Objection Int
  | .integer v => .ok v
  | .flag b => .ok (if b then 1 else 0)
  | .real x =>
    if x.isFinite then
      match x.toInt? with
      | some v => if v.natAbs < wordLimit then .ok v else .error .oversizedInteger
      | none => .error .fractional
    else .error .notFinite
  | .text s =>
    if Text.startsOversized s then .error .oversizedInteger
    else
      match Text.integer? s with
      | some v => .ok v
      | none => .error .notIntegerText
  | .null | .compound => .error .notInteger

/-- The words that stand for a flag that is off. -/
def offWords : List String := ["0", "off", "f", "false", "n", "no"]

/-- The words that stand for a flag that is on. -/
def onWords : List String := ["1", "on", "t", "true", "y", "yes"]

/-- The flag that an integer stands for. -/
def flagOfInt : Int → Except Objection Bool
  | 0 => .ok false
  | 1 => .ok true
  | _ => .error .unknownFlag

/-- The flag of a value: a flag, zero or one, or one of the words for a flag in
any case. A number that is no integer of 64 bits is not even looked up. -/
def toFlag : Setting → Except Objection Bool
  | .flag b => .ok b
  | .integer v => if -(wordLimit : Int) ≤ v ∧ v < wordLimit then flagOfInt v else .error .notFlag
  | .real x =>
    match x.toInt? with
    | some v => if v.natAbs < wordLimit then flagOfInt v else .error .notFlag
    | none => .error .notFlag
  | .text s =>
    if s.toLower ∈ offWords then .ok false
    else if s.toLower ∈ onWords then .ok true
    else .error .unknownFlag
  | .null | .compound => .error .notFlag

/-- How the values of entries are read. -/
def reader : ValueReader Setting Objection where
  toText := toText
  toInteger := toInteger
  toFlag := toFlag
  isNull v := v == .null
  ofText := .text
  ofInteger := .integer
  ofFlag := .flag
  belowMinimum := .belowMinimum
  unknownName := .unknownName

/-- What settings hold is a text, an integer and two flags, which are taken as they are. -/
theorem readsBack_reader : reader.ReadsBack :=
  ⟨fun _ => rfl, fun _ _ => rfl, fun _ => rfl⟩

end Setting

namespace Settings

/-- The settings that the entries describe. -/
def ofEntries (entries : Entries Setting) : Except (List (Violation Objection)) Settings :=
  Setting.reader.ofEntries entries

/-- The settings with some entries put over them. -/
def override (s : Settings) (overrides : Entries Setting) :
    Except (List (Violation Objection)) Settings :=
  Setting.reader.override s overrides

end Settings

end Abacus
