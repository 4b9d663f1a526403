import Abacus.Operator
import Abacus.Text.Numeral
import Abacus.Text.Quoted

/-!
# Tokens

The words of an arithmetic line: numbers, operators and parentheses. A token is
written with its source text (`Token.text`), a sequence of tokens with single
spaces between them (`Token.render`).

`Token.build` makes a token from a kind and an optional number. Only the kind
`number` carries one, and it always does.
-/

namespace Abacus

/-- A word of an arithmetic line. A number may be any integer: that it fits in
64 bits is asked for when it becomes part of an expression. -/
inductive Token where
  | number (value : Int)
  | operator (op : Operator)
  | opening
  | closing
  deriving DecidableEq, Repr

namespace Token

inductive Kind where
  | number
  | operator (op : Operator)
  | opening
  | closing
  deriving DecidableEq, Repr

def Kind.name : Kind → String
  | .number => "number"
  | .operator .add => "plus"
  | .operator .sub => "minus"
  | .operator .mul => "star"
  | .operator .div => "slash"
  | .opening => "lparen"
  | .closing => "rparen"

def Kind.all : List Kind :=
  [.number, .operator .add, .operator .sub, .operator .mul, .operator .div, .opening, .closing]

def Kind.ofName? (name : String) : Option Kind :=
  Kind.all.find? fun kind => kind.name == name

def kind : Token → Kind
  | .number _ => .number
  | .operator op => .operator op
  | .opening => .opening
  | .closing => .closing

def value? : Token → Option Int
  | .number value => some value
  | _ => none

def text : Token → String
  | .number value => Numeral.ofInt value
  | .operator op => op.text
  | .opening => "("
  | .closing => ")"

/-- A token with its kind and number, for display. -/
def describe (t : Token) : String :=
  match t.value? with
  | some value => "Token(" ++ t.kind.name ++ ", " ++ Numeral.ofInt value ++ ")"
  | none => "Token(" ++ t.kind.name ++ ")"

/-- The source text of a sequence of tokens, with single spaces between them. -/
def render : List Token → String
  | [] => ""
  | [t] => t.text
  | t :: ts => t.text ++ " " ++ render ts

/-- Why no token can be built. -/
inductive BuildFault where
  | unknownKind (name : String)
  /-- A number is missing, or given where none belongs. -/
  | unsuitableValue (kind : Kind) (value : Option Int)
  deriving DecidableEq, Repr

def BuildFault.message : BuildFault → String
  | .unknownKind name => Text.quote name ++ " is not a valid TokenKind"
  | .unsuitableValue kind value =>
    kind.name ++ " token cannot have value " ++ (value.map Numeral.ofInt).getD "None"

/-- The token of a kind and an optional number. -/
def ofKind (kind : Kind) (value : Option Int) : Except BuildFault Token :=
  match kind, value with
  | .number, some value => .ok (.number value)
  | .operator op, none => .ok (.operator op)
  | .opening, none => .ok .opening
  | .closing, none => .ok .closing
  | kind, value => .error (.unsuitableValue kind value)

/-- The token of a kind, given by name, and an optional number. -/
def build (name : String) (value : Option Int) : Except BuildFault Token :=
  match Kind.ofName? name with
  | some kind => ofKind kind value
  | none => .error (.unknownKind name)

/-- Why a token cannot be changed. -/
inductive AssignFault where
  /-- The attribute is there and fixed. -/
  | immutable (name : String)
  /-- There is no such attribute. -/
  | noAttribute (name : String)
  deriving DecidableEq, Repr

def AssignFault.message : AssignFault → String
  | .immutable name => "Token is immutable, cannot set " ++ Text.quote name
  | .noAttribute name => "'Token' object has no attribute '" ++ name ++ "'"

/-- The names by which something can be asked of any value. -/
def commonAttributes : List String :=
  ["__class__", "__delattr__", "__dir__", "__doc__", "__eq__", "__format__", "__ge__",
   "__getattribute__", "__getstate__", "__gt__", "__hash__", "__init__", "__init_subclass__",
   "__le__", "__lt__", "__module__", "__ne__", "__new__", "__reduce__", "__reduce_ex__",
   "__repr__", "__setattr__", "__sizeof__", "__slots__", "__str__", "__subclasshook__"]

/-- The names by which something can be asked of a token. -/
def attributes : List String := ["kind", "value", "number"] ++ commonAttributes

/-- No attribute of a token can be set. -/
def assign (name : String) : AssignFault :=
  if name ∈ attributes then .immutable name else .noAttribute name

/-- A token is built again from its own kind and number. -/
theorem ofKind_kind (t : Token) : ofKind t.kind t.value? = .ok t := by
  cases t <;> rfl

theorem Kind.ofName?_name (kind : Kind) : Kind.ofName? kind.name = some kind := by
  rcases kind with _ | op | _ | _
  · decide
  · cases op <;> decide
  · decide
  · decide

/-- Only numbers carry a value, and all of them do. -/
theorem isSome_value? (t : Token) : t.value?.isSome = true ↔ t.kind = .number := by
  cases t <;> simp [value?, kind]

end Token

end Abacus
