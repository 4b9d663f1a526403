import Abacus.Text.Hex
import Abacus.Text.Numeral

/-!
# UTF-8

Decoding bytes as UTF-8, one byte at a time. A lead byte fixes how many
continuation bytes are owed and the range of the first of them, which rules out
surrogates, overlong forms and code points beyond U+10FFFF. Decoding stops at
the first byte that cannot continue the text and says why.
-/

namespace Abacus.Text.Utf8

/-- What is wrong with a byte sequence. -/
inductive Reason where
  /-- The byte starts no character. -/
  | invalidStart
  /-- The bytes start a character that the next byte does not continue. -/
  | invalidContinuation
  /-- The bytes start a character that the end of the input cuts short. -/
  | unexpectedEnd
  deriving DecidableEq, Repr

def Reason.message : Reason → String
  | .invalidStart => "invalid start byte"
  | .invalidContinuation => "invalid continuation byte"
  | .unexpectedEnd => "unexpected end of data"

/-- Where decoding stopped: the bytes at fault and the position of the first. -/
structure Fault where
  reason : Reason
  bytes : List UInt8
  position : Nat
  deriving DecidableEq, Repr

/-- One byte is shown with its value, several with their range of positions. -/
def Fault.message (f : Fault) : String :=
  match f.bytes with
  | [b] =>
    "'utf-8' codec can't decode byte 0x" ++ String.ofList (hexDigits 2 b.toNat) ++
      " in position " ++ Numeral.ofNat f.position ++ ": " ++ f.reason.message
  | bytes =>
    "'utf-8' codec can't decode bytes in position " ++ Numeral.ofNat f.position ++ "-" ++
      Numeral.ofNat (f.position + bytes.length - 1) ++ ": " ++ f.reason.message

/-- What a lead byte promises: how many continuation bytes follow, the range of
the first one, and the bits the lead byte itself contributes. -/
structure Lead where
  owed : Nat
  low : UInt8
  high : UInt8
  bits : Nat

/-- The promise of a lead byte of two, three or four bytes. -/
def lead? (b : UInt8) : Option Lead :=
  if 0xC2 ≤ b ∧ b ≤ 0xDF then some ⟨1, 0x80, 0xBF, b.toNat - 0xC0⟩
  else if b = 0xE0 then some ⟨2, 0xA0, 0xBF, 0⟩
  else if b = 0xED then some ⟨2, 0x80, 0x9F, 0xD⟩
  else if 0xE1 ≤ b ∧ b ≤ 0xEF then some ⟨2, 0x80, 0xBF, b.toNat - 0xE0⟩
  else if b = 0xF0 then some ⟨3, 0x90, 0xBF, 0⟩
  else if b = 0xF4 then some ⟨3, 0x80, 0x8F, 4⟩
  else if 0xF1 ≤ b ∧ b ≤ 0xF3 then some ⟨3, 0x80, 0xBF, b.toNat - 0xF0⟩
  else none

/-- Where the decoder stands between two bytes. -/
inductive State where
  /-- Between characters. -/
  | between
  /-- Inside a character that started at `start`, with the bytes `taken`. -/
  | inside (start : Nat) (taken : List UInt8) (lead : Lead)

/-- The characters up to the first fault, and that fault if there is one. -/
def decodeFrom (position : Nat) : State → List UInt8 → List Char × Option Fault
  | .between, [] => ([], none)
  | .inside start taken _, [] => ([], some ⟨.unexpectedEnd, taken, start⟩)
  | .between, b :: bs =>
    if b < 0x80 then
      let (cs, fault) := decodeFrom (position + 1) .between bs
      (Char.ofNat b.toNat :: cs, fault)
    else
      match lead? b with
      | none => ([], some ⟨.invalidStart, [b], position⟩)
      | some lead => decodeFrom (position + 1) (.inside position [b] lead) bs
  | .inside start taken lead, b :: bs =>
    if lead.low ≤ b ∧ b ≤ lead.high then
      let bits := lead.bits * 0x40 + (b.toNat - 0x80)
      if lead.owed ≤ 1 then
        let (cs, fault) := decodeFrom (position + 1) .between bs
        (Char.ofNat bits :: cs, fault)
      else
        decodeFrom (position + 1)
          (.inside start (taken ++ [b]) ⟨lead.owed - 1, 0x80, 0xBF, bits⟩) bs
    else ([], some ⟨.invalidContinuation, taken, start⟩)

/-- The longest prefix of the bytes that is text, and the fault after it. -/
def decodePrefix (bs : List UInt8) : List Char × Option Fault :=
  decodeFrom 0 .between bs

/-- The text that the bytes encode. -/
def decode (bs : List UInt8) : Except Fault (List Char) :=
  match decodePrefix bs with
  | (cs, none) => .ok cs
  | (_, some fault) => .error fault

/-! ## Examples -/

example : (decodePrefix [0x61, 0xCE, 0xBB, 0xF0, 0x9F, 0x98, 0x80]).1 = ['a', 'λ', '😀'] := by decide

example : (decodePrefix [0x31, 0xED, 0xA0, 0x80]).2 =
    some ⟨.invalidContinuation, [0xED], 1⟩ := by decide

example : (decodePrefix [0x31, 0xE2, 0x82]).2 = some ⟨.unexpectedEnd, [0xE2, 0x82], 1⟩ := by decide

example : (decodePrefix [0xC0, 0xAF]).2 = some ⟨.invalidStart, [0xC0], 0⟩ := by decide

end Abacus.Text.Utf8
