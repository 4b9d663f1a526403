/-!
# Options

Splitting the arguments of a command into options and operands.

A long option is one argument, `--name`, and takes its value from the same
argument after an equals sign, or else from the next one. Short options may
share an argument behind one hyphen. One that takes a value takes what is left
of the argument, or else the next one. Two hyphens end the options, and a
single one is an operand. Names are never abbreviated.
-/

namespace Abacus.CommandLine

/-- An option that a command knows: its spellings, whether it takes a value, and
what it means. -/
structure OptionSpec (α : Type) where
  long : Option String
  short : Option Char
  takesValue : Bool
  meaning : α

structure Given (α : Type) where
  meaning : α
  value : Option String

/-- Arguments, split into options and operands. Both are in the order given. -/
structure Arguments (α : Type) where
  options : List (Given α)
  operands : List String

namespace Arguments

variable {α : Type}

/-- The arguments with more options in front. -/
def withOptions (options : List (Given α)) (a : Arguments α) : Arguments α :=
  { a with options := options ++ a.options }

/-- The arguments with an operand in front. -/
def withOperand (operand : String) (a : Arguments α) : Arguments α :=
  { a with operands := operand :: a.operands }

/-- The value of the last option with a meaning, if it was given with one. -/
def lastValue? [DecidableEq α] (a : Arguments α) (meaning : α) : Option String :=
  (a.options.reverse.find? fun given => given.meaning = meaning).bind Given.value

/-- True of an option that was given. -/
def has [DecidableEq α] (a : Arguments α) (meaning : α) : Bool :=
  a.options.any fun given => given.meaning = meaning

end Arguments

/-- Options read off the front of some arguments, and how many of the arguments
after the first they took: none, or one as a value. -/
inductive Taken (α : Type) where
  | alone (options : List (Given α))
  | withNext (options : List (Given α))

variable {α : Type}

/-- The long option that an argument gives. The name and the value are split at
the first equals sign. The result is absent if no such option is known, and
inside it if the value does not suit it. -/
def readLong (specs : List (OptionSpec α)) (arg : List Char) (next : Option String) :
    Option (Option (Taken α)) :=
  let name := String.ofList (arg.takeWhile (· != '='))
  (specs.find? fun spec => spec.long == some name).map fun spec =>
    match arg.dropWhile (· != '='), spec.takesValue, next with
    | [], false, _ => some (.alone [⟨spec.meaning, none⟩])
    | _ :: value, true, _ => some (.alone [⟨spec.meaning, some (String.ofList value)⟩])
    | [], true, some value => some (.withNext [⟨spec.meaning, some value⟩])
    | _, _, _ => none

/-- The short options that the characters after a hyphen give. -/
def readShort (specs : List (OptionSpec α)) (next : Option String) :
    List Char → Option (Taken α)
  | [] => some (.alone [])
  | c :: cs =>
    match specs.find? fun spec => spec.short == some c with
    | none => none
    | some spec =>
      if spec.takesValue then
        match cs, next with
        | [], some value => some (.withNext [⟨spec.meaning, some value⟩])
        | [], none => none
        | cs, _ => some (.alone [⟨spec.meaning, some (String.ofList cs)⟩])
      else
        match readShort specs next cs with
        | some (.alone options) => some (.alone (⟨spec.meaning, none⟩ :: options))
        | some (.withNext options) => some (.withNext (⟨spec.meaning, none⟩ :: options))
        | none => none

/-- The options that an argument gives. Behind two hyphens they are long only. -/
def readOption (specs : List (OptionSpec α)) (arg : List Char) (next : Option String) :
    Option (Taken α) :=
  match readLong specs arg next with
  | some taken => taken
  | none =>
    match arg with
    | '-' :: '-' :: _ => none
    | '-' :: cs => readShort specs next cs
    | _ => none

/-- True of an argument that gives options: a hyphen with more behind it. -/
def isOption (arg : String) : Bool :=
  match arg.toList with
  | '-' :: _ :: _ => true
  | _ => false

/-- The options and operands among some arguments, if every option is known and
suits its value. Unless `mixed`, everything from the first operand on is an
operand. -/
def readArguments (specs : List (OptionSpec α)) (mixed : Bool) :
    List String → Option (Arguments α)
  | [] => some ⟨[], []⟩
  | arg :: args =>
    if arg = "--" then some ⟨[], args⟩
    else if isOption arg then
      match args, readOption specs arg.toList args.head? with
      | args, some (.alone options) =>
        (readArguments specs mixed args).map (.withOptions options)
      | _ :: args, some (.withNext options) =>
        (readArguments specs mixed args).map (.withOptions options)
      | [], some (.withNext _) => none
      | _, none => none
    else if mixed then (readArguments specs mixed args).map (.withOperand arg)
    else some ⟨[], arg :: args⟩

end Abacus.CommandLine
