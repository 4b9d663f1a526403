import Abacus.Text.Hex
import Abacus.Text.Printable

/-!
# Quoted text

How a message or a log line shows a text from the input: between quotes, on
one line, with everything that cannot be printed written as an escape.

Single quotes are used, unless the text has a single quote and no double quote.
The quote in use and the backslash are escaped with a backslash. Line feed,
carriage return and tab have escapes of their own. Every other unprintable
character is written with the shortest of `\xhh`, `\uhhhh` and `\Uhhhhhhhh`.

Main statement: `space_le_of_mem_quote`, quoted text holds no control character, so that
it never breaks a line.
-/

namespace Abacus.Text

/-- The shortest numeric escape of a character. -/
def numericEscape (c : Char) : List Char :=
  if c.toNat < 0x100 then '\\' :: 'x' :: hexDigits 2 c.toNat
  else if c.toNat < 0x10000 then '\\' :: 'u' :: hexDigits 4 c.toNat
  else '\\' :: 'U' :: hexDigits 8 c.toNat

/-- One character of a text between quotes `q`. -/
def quoteChar (q c : Char) : List Char :=
  if c == q || c == '\\' then ['\\', c]
  else if c == '\n' then ['\\', 'n']
  else if c == '\r' then ['\\', 'r']
  else if c == '\t' then ['\\', 't']
  else if isPrintable c then [c]
  else numericEscape c

/-- The quote that goes around a text. -/
def quoteMark (cs : List Char) : Char :=
  if cs.contains '\'' && !cs.contains '"' then '"' else '\''

/-- A text between quotes, with escapes. -/
def quoteChars (cs : List Char) : List Char :=
  quoteMark cs :: cs.flatMap (quoteChar (quoteMark cs)) ++ [quoteMark cs]

/-- A text between quotes, with escapes. -/
def quote (s : String) : String := String.ofList (quoteChars s.toList)

/-! ## Quoted text holds no control character -/

theorem space_le_of_mem_numericEscape {c d : Char} (h : d ∈ numericEscape c) : ' ' ≤ d := by
  have hescape {mark : Char} {width : Nat} (hmark : ' ' ≤ mark)
      (h : d ∈ '\\' :: mark :: hexDigits width c.toNat) : ' ' ≤ d := by
    rcases List.mem_cons.mp h with rfl | h
    · decide
    · rcases List.mem_cons.mp h with rfl | h
      · exact hmark
      · exact space_le_of_mem_hexDigits h
  unfold numericEscape at h
  split at h
  · exact hescape (by decide) h
  · split at h
    · exact hescape (by decide) h
    · exact hescape (by decide) h

theorem space_le_of_mem_quoteChar {q c d : Char} (hq : ' ' ≤ q) (h : d ∈ quoteChar q c) :
    ' ' ≤ d := by
  have hescape {mark : Char} (hmark : ' ' ≤ mark) (h : d ∈ ['\\', mark]) : ' ' ≤ d := by
    rcases List.mem_cons.mp h with rfl | h
    · decide
    · exact List.mem_singleton.mp h ▸ hmark
  unfold quoteChar at h
  split at h
  · next hc =>
    have hmark : ' ' ≤ c := by
      rcases Bool.or_eq_true_iff.mp hc with hc | hc
      · exact beq_iff_eq.mp hc ▸ hq
      · exact beq_iff_eq.mp hc ▸ by decide
    exact hescape hmark h
  · split at h
    · exact hescape (by decide) h
    · split at h
      · exact hescape (by decide) h
      · split at h
        · exact hescape (by decide) h
        · split at h
          · next hc => exact List.mem_singleton.mp h ▸ space_le_of_isPrintable hc
          · exact space_le_of_mem_numericEscape h

theorem space_le_quoteMark (cs : List Char) : ' ' ≤ quoteMark cs := by
  unfold quoteMark
  split <;> decide

/-- Quoted text holds no control character, whatever the text. -/
theorem space_le_of_mem_quote {s : String} {c : Char} (h : c ∈ (quote s).toList) : ' ' ≤ c := by
  have hmark := space_le_quoteMark s.toList
  rw [quote, String.toList_ofList, quoteChars] at h
  rcases List.mem_append.mp h with h | h
  · rcases List.mem_cons.mp h with rfl | h
    · exact hmark
    · obtain ⟨d, -, hd⟩ := List.mem_flatMap.mp h
      exact space_le_of_mem_quoteChar hmark hd
  · exact List.mem_singleton.mp h ▸ hmark

end Abacus.Text
