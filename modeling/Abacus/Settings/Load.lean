import Abacus.Folder
import Abacus.Settings.Values
import Abacus.Text.Lines
import Abacus.Text.Utf8
import Abacus.Toml.Document

/-!
# Settings from a file

A settings file is TOML, and its table `repl` holds the settings. A file without
that table leaves them as they are.
-/

namespace Abacus

/-- Why a file cannot be read. -/
inductive Unreadable where
  | missing
  /-- It may not be read. -/
  | denied
  | directory
  | notDirectory
  | nameTooLong
  deriving DecidableEq, Repr

/-- The number and the wording of a failure to read. -/
def Unreadable.message : Unreadable → String
  | .missing => "[Errno 2] No such file or directory"
  | .denied => "[Errno 13] Permission denied"
  | .directory => "[Errno 21] Is a directory"
  | .notDirectory => "[Errno 20] Not a directory"
  | .nameTooLong => "[Errno 36] File name too long"

/-- What is wrong with a settings file. -/
inductive ConfigFault where
  | unreadable (reason : Unreadable)
  | notToml
  /-- Its entry `repl` is no table. -/
  | notTable
  | refused (violations : List (Violation Objection))
  deriving DecidableEq, Repr

/-- Why no settings are loaded. Only the first is a fault that the program
reports. The others end it. -/
inductive LoadFault where
  | config (fault : ConfigFault)
  | notUtf8 (fault : Text.Utf8.Fault)
  /-- The file holds an integer with too many digits. -/
  | integerTooLong (digits : Nat)
  /-- The path holds a null character. -/
  | unnameable
  deriving DecidableEq, Repr

def Objection.message : Objection → String
  | .notText => "a text is wanted"
  | .notInteger => "an integer is wanted"
  | .notIntegerText => "the text is no integer"
  | .oversizedInteger => "the number is too large"
  | .notFinite => "the number is not finite"
  | .fractional => "the number has a fraction"
  | .belowMinimum => "the number is below 1"
  | .notFlag => "a flag is wanted"
  | .unknownFlag => "the value stands for no flag"
  | .unknownName => "there is no such setting"

def Violation.message (v : Violation Objection) : String := v.name ++ ": " ++ v.objection.message

/-- The wording of a fault in the file at a location. -/
def ConfigFault.message (l : Location) : ConfigFault → String
  | .unreadable reason =>
    "Cannot read config file " ++ l.text ++ ": " ++ reason.message ++ ": " ++ Text.quote l.text
  | .notToml => "Invalid TOML in " ++ l.text ++ ": not a TOML document"
  | .notTable => "[repl] in " ++ l.text ++ " must be a table"
  | .refused violations =>
    "Invalid [repl] settings in " ++ l.text ++ ": " ++
      String.intercalate "\n" (violations.map Violation.message)

/-- The wording of a fault in the file at a location. -/
def LoadFault.message (l : Location) : LoadFault → String
  | .config fault => fault.message l
  | .notUtf8 fault => fault.message
  | .integerTooLong digits => Numeral.excessMessage digits
  | .unnameable => "embedded null byte"

/-- A TOML value as a setting. -/
def Toml.Value.toSetting : Toml.Value → Setting
  | .text s => .text s
  | .integer v => .integer v
  | .real x => .real x
  | .boolean b => .flag b
  | .moment | .array _ | .table _ => .compound

namespace Settings

/-- The entries of the table `repl`. -/
def section? (t : Toml.Table) : Option (Entries Setting) :=
  match t.get? "repl" with
  | none => some []
  | some (.table entries) => some (entries.map fun entry => (entry.1, entry.2.toSetting))
  | some _ => none

def ofToml (cs : List Char) : Except LoadFault Settings :=
  match Toml.parse (Text.unifyLineEnds cs) with
  | .error .invalid => .error (.config .notToml)
  | .error (.integerTooLong digits) => .error (.integerTooLong digits)
  | .ok t =>
    match section? t with
    | none => .error (.config .notTable)
    | some entries => (ofEntries entries).mapError fun violations => .config (.refused violations)

def load : FileState → Except LoadFault Settings
  | .missing => .error (.config (.unreadable .missing))
  | .denied => .error (.config (.unreadable .denied))
  | .directory => .error (.config (.unreadable .directory))
  | .notDirectory => .error (.config (.unreadable .notDirectory))
  | .nameTooLong => .error (.config (.unreadable .nameTooLong))
  | .unnameable => .error .unnameable
  | .file content =>
    match Text.Utf8.decode content with
    | .error fault => .error (.notUtf8 fault)
    | .ok cs => ofToml cs

end Settings

end Abacus
