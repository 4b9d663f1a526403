/-!
# Blank characters

Two classes of blanks and the trimming they induce. `isWhiteSpace` is the
Unicode property White_Space. `isBlank` adds the four information separators,
which divide fields of text and count as blanks wherever a line is read.

The lemmas say that the class is wide enough (`isBlank_of_isWhitespace`) and
that trimming brings nothing new (`mem_trim`) and does not care for one more
character to trim (`trim_concat`).
-/

namespace Abacus.Text

/-- Characters with the Unicode property White_Space. -/
def isWhiteSpace (c : Char) : Bool :=
  (0x09 ≤ c.toNat && c.toNat ≤ 0x0D) || c.toNat == 0x20 || c.toNat == 0x85 ||
  c.toNat == 0xA0 || c.toNat == 0x1680 || (0x2000 ≤ c.toNat && c.toNat ≤ 0x200A) ||
  c.toNat == 0x2028 || c.toNat == 0x2029 || c.toNat == 0x202F || c.toNat == 0x205F ||
  c.toNat == 0x3000

/-- White space, or one of the information separators U+001C to U+001F. -/
def isBlank (c : Char) : Bool :=
  isWhiteSpace c || (0x1C ≤ c.toNat && c.toNat ≤ 0x1F)

/-- Drops the characters of class `p` at the end of a text. -/
def trimEnd (p : Char → Bool) (cs : List Char) : List Char :=
  (cs.reverse.dropWhile p).reverse

/-- Drops the characters of class `p` at both ends of a text. -/
def trim (p : Char → Bool) (cs : List Char) : List Char :=
  trimEnd p (cs.dropWhile p)

/-- True of the two characters that end a line of text. -/
def isLineEnd (c : Char) : Bool := c == '\n' || c == '\r'

/-- Every blank of the core library is one here. -/
theorem isBlank_of_isWhitespace {c : Char} (h : c.isWhitespace = true) : isBlank c = true := by
  simp only [Char.isWhitespace, Bool.or_eq_true, decide_eq_true_eq] at h
  rcases h with ((rfl | rfl) | rfl) | rfl <;> decide

theorem mem_trimEnd {p : Char → Bool} {cs : List Char} {c : Char} (h : c ∈ trimEnd p cs) :
    c ∈ cs := by
  have := (List.dropWhile_suffix (l := cs.reverse) p).subset (List.mem_reverse.mp h)
  exact List.mem_reverse.mp this

theorem mem_trim {p : Char → Bool} {cs : List Char} {c : Char} (h : c ∈ trim p cs) : c ∈ cs :=
  (List.dropWhile_suffix p).subset (mem_trimEnd h)

/-- Characters of the class at the end make no difference. -/
theorem trimEnd_append {p : Char → Bool} {ends : List Char} (h : ∀ c ∈ ends, p c = true)
    (cs : List Char) : trimEnd p (cs ++ ends) = trimEnd p cs := by
  have hends : ∀ c ∈ ends.reverse, p c = true := fun c hc => h c (List.mem_reverse.mp hc)
  rw [trimEnd, List.reverse_append, List.dropWhile_append_of_pos hends, trimEnd]

theorem trim_concat {p : Char → Bool} {c : Char} (h : p c = true) (cs : List Char) :
    trim p (cs ++ [c]) = trim p cs := by
  rw [trim, trim, List.dropWhile_append]
  split
  · next hempty =>
    rw [List.isEmpty_iff.mp hempty]
    exact congrArg (trimEnd p) (List.dropWhile_cons_of_pos h)
  · exact trimEnd_append (List.forall_mem_singleton.mpr h) _

end Abacus.Text
