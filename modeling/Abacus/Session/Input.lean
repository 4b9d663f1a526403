import Abacus.Text.Lines
import Abacus.Text.Utf8

/-!
# The input of a session

A session reads lines until the input ends or cannot be read on.

`Input.ofBytes` is a stream of UTF-8 that takes any of the customary line ends
and that is short enough to be decoded in one go. A byte that cannot be decoded
spoils the whole input, because it is met when the input is first read. Only a
character that the end of the input cuts short comes late: the lines completed
before it are read, and a carriage return just before it completes no line, as
a line feed might have followed. The position in its message counts from the
start of the character.

Standard input may be another kind of stream, one that ends lines at line feeds
only and keeps carriage returns (`Input.ofText` of its text), or one that decodes
its bytes piece by piece, so that a late fault spoils late lines only. A session
is defined on every `Input`, whatever stream it comes from.
-/

namespace Abacus

/-- How an input ends. -/
inductive Ending where
  /-- There is no more to read. -/
  | eof
  /-- Reading fails with this message. -/
  | failure (message : String)
  deriving DecidableEq, Repr

/-- What a session can read: lines, each with its line feed except perhaps the
last, and what comes after them. -/
structure Input where
  lines : List String
  ending : Ending
  deriving DecidableEq, Repr

namespace Input

/-- The lines of a text, which end at line feeds only. -/
def ofText (text : String) : Input :=
  ⟨(Text.splitLines text.toList).map String.ofList, .eof⟩

/-- The input whose reads fail from read number `n` on, counted from zero. An
input that ends before that is unchanged. -/
def failingFrom (n : Nat) (message : String) (input : Input) : Input :=
  if n ≤ input.lines.length then ⟨input.lines.take n, .failure message⟩ else input

/-- The lines of a text that are complete when its end is still unknown. -/
def completeLines (cs : List Char) : List String :=
  let settled := if cs.getLast? = some '\r' then cs.dropLast else cs
  ((Text.splitLines (Text.unifyLineEnds settled)).filter Text.isComplete).map String.ofList

/-- True of the first two of the three bytes that would encode a surrogate. -/
def isHalfSurrogate : List UInt8 → Bool
  | [a, b] => a == 0xED && 0xA0 ≤ b && b ≤ 0xBF
  | _ => false

/-- True of a fault that is not met before the bytes end: a character cut short.
Half of a surrogate is not told from one until then either. -/
def isLate (bytes : List UInt8) (fault : Text.Utf8.Fault) : Bool :=
  fault.reason == .unexpectedEnd || isHalfSurrogate (bytes.drop fault.position)

/-- The input that bytes encode. -/
def ofBytes (bytes : List UInt8) : Input :=
  match Text.Utf8.decodePrefix bytes with
  | (cs, none) => ⟨(Text.splitLines (Text.unifyLineEnds cs)).map String.ofList, .eof⟩
  | (cs, some fault) =>
    if isLate bytes fault then
      ⟨completeLines cs, .failure { fault with position := 0 }.message⟩
    else ⟨[], .failure fault.message⟩

example : (ofBytes [0x31, 0x0A, 0x32, 0xC3]).lines = ["1\n"] := by decide +kernel

example : (ofBytes [0x31, 0x0A, 0xED, 0xA0]).lines = ["1\n"] := by decide +kernel

example : (ofBytes [0x31, 0x0A, 0xED, 0xA0, 0x80]).lines = [] := by decide +kernel

end Input

end Abacus
