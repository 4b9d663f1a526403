import Abacus.CommandLine.Run

/-!
# The program

Reads the settings file that the arguments name, and standard input if a session
is to be held, runs the command line on them, and writes what comes of it.
-/

namespace Abacus

/-- What is found at a location that cannot be read. -/
def stateOfError : IO.Error → FileState
  | .permissionDenied _ _ _ => .denied
  | .inappropriateType _ code _ => if code == 21 then .directory else .notDirectory
  | .invalidArgument _ code _ => if code == 22 then .unnameable else .nameTooLong
  | _ => .missing

/-- What is found at a location of the file system. -/
def stateOf (l : Location) : IO FileState := do
  try
    return .file (← IO.FS.readBinFile l.text).data.toList
  catch e => return stateOfError e

/-- The bytes of a stream up to its end. -/
partial def readAll (stream : IO.FS.Stream) (read : ByteArray) : IO ByteArray := do
  let chunk ← stream.read 8192
  if chunk.isEmpty then return read else readAll stream (read ++ chunk)

end Abacus

open Abacus in
def main (args : List String) : IO UInt32 := do
  let state ← match CommandLine.configLocation? args with
    | some location => stateOf location
    | none => pure .missing
  let input ← if CommandLine.readsInput args then readAll (← IO.getStdin) .empty else pure .empty
  let outcome := CommandLine.run (fun _ => state) input.data.toList args
  IO.print (outcome.stdout ⟨"Lean", "unknown"⟩)
  IO.eprint (outcome.stderr (toString (← IO.monoMsNow)))
  return UInt32.ofNat outcome.status
