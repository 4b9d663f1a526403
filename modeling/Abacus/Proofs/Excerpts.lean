import Abacus.Proofs.Lines
import Abacus.Proofs.Scanning

/-!
# The excerpt below a message

What the scanner cannot read is shown on three lines: the message, the line at fault and a
caret. The scanner counts characters of the whole line, the line is shown without the line
ends that close it, and the caret is placed by a column of its own.

Results:
1. `closedBy_trimEnd`, `trimEnd_closed`: every text is closed by a run of line ends, and
   trimming takes exactly this run off.
2. `splitOn_display`: a notice of one-line texts is displayed on three lines.
3. `lt_length_of_offenceAt`: the scanner never stops in the run of line ends.
4. `caret_below_offence`: the caret stands below the character at which the scanner stops.
-/

namespace Abacus

/-! ## 1. The line ends that close a text -/

namespace Text

/-- A text is a body with a run of line ends behind it, and the body ends in none. -/
structure ClosedBy (cs body ends : List Char) : Prop where
  whole : cs = body ++ ends
  ends : ∀ c ∈ ends, c = '\r' ∨ c = '\n'
  last : ∀ c, body.getLast? = some c → c ≠ '\r' ∧ c ≠ '\n'

theorem isLineEnd_iff {c : Char} : isLineEnd c = true ↔ c = '\r' ∨ c = '\n' := by
  rw [isLineEnd, Bool.or_eq_true, beq_iff_eq, beq_iff_eq, or_comm]

theorem trimEnd_of_last {p : Char → Bool} {cs : List Char}
    (h : ∀ c, cs.getLast? = some c → p c = false) : trimEnd p cs = cs := by
  rw [trimEnd]
  cases hrev : cs.reverse with
  | nil => exact (List.reverse_eq_nil_iff.mp hrev).symm
  | cons c rest =>
    have hlast : cs.getLast? = some c := by
      rw [← List.head?_reverse, hrev]
      rfl
    rw [List.dropWhile_cons_of_neg (Bool.eq_false_iff.mp (h c hlast)), ← hrev, List.reverse_reverse]

/-- Every text is closed by a run of line ends, be it an empty one. -/
theorem closedBy_trimEnd (cs : List Char) :
    ClosedBy cs (trimEnd isLineEnd cs) (cs.reverse.takeWhile isLineEnd).reverse where
  whole := by
    rw [trimEnd, ← List.reverse_append, List.takeWhile_append_dropWhile, List.reverse_reverse]
  ends c hc := isLineEnd_iff.mp (List.all_eq_true.mp List.all_takeWhile c (List.mem_reverse.mp hc))
  last c hc := by
    rw [trimEnd, List.getLast?_reverse] at hc
    have hhead := List.head?_dropWhile_not isLineEnd cs.reverse
    rw [hc] at hhead
    exact not_or.mp fun hend => Bool.false_ne_true (hhead.symm.trans (isLineEnd_iff.mpr hend))

/-- Trimming takes exactly the closing run of line ends off. -/
theorem trimEnd_closed {cs body ends : List Char} (h : ClosedBy cs body ends) :
    trimEnd isLineEnd cs = body := by
  rw [h.whole, trimEnd_append fun c hc => isLineEnd_iff.mpr (h.ends c hc)]
  refine trimEnd_of_last fun c hc => Bool.eq_false_iff.mpr fun hend => ?_
  obtain ⟨hreturn, hfeed⟩ := h.last c hc
  exact (isLineEnd_iff.mp hend).elim hreturn hfeed

end Text

/-! ## 2. The lines of a notice -/

/-- The line of the caret. -/
def Excerpt.marker (e : Excerpt) : List Char := List.replicate e.padding ' ' ++ ['^']

/-- A message and an excerpt that break no line are displayed on three lines. -/
theorem Notice.splitOn_display {message : String} {excerpt : Excerpt} (hmessage : OneLine message)
    (hline : OneLine excerpt.line) :
    (Notice.mk message (some excerpt)).display.toList.splitOn '\n' =
      [message.toList, ' ' :: ' ' :: excerpt.line.toList, excerpt.marker] := by
  have hdisplay : (Notice.mk message (some excerpt)).display.toList =
      ['\n'].intercalate [message.toList, ' ' :: ' ' :: excerpt.line.toList, excerpt.marker] := by
    simp [Notice.display, Excerpt.display, Excerpt.marker, List.intercalate_cons_cons]
  have hmarker : '\n' ∉ excerpt.marker := by
    simp [Excerpt.marker]
  have hindented : '\n' ∉ ' ' :: ' ' :: excerpt.line.toList := by
    simp only [List.mem_cons, not_or]
    exact ⟨by decide, by decide, hline⟩
  have hbreaks : ∀ line ∈ [message.toList, ' ' :: ' ' :: excerpt.line.toList, excerpt.marker],
      '\n' ∉ line := by
    simp only [List.forall_mem_cons]
    exact ⟨hmessage, hindented, hmarker, nofun⟩
  rw [hdisplay, List.splitOn_intercalate '\n' hbreaks (List.cons_ne_nil _ _)]

/-! ## 3. Where the scanner stops -/

namespace Token

open ScanningLemmas

/-- There is a character where something is in the way, and it ends no line. -/
theorem exists_offender {cs : List Char} {i : Nat} {cause : ScanCause}
    (h : OffenceAt cs i cause) : ∃ c, cs[i]? = some c ∧ c ≠ '\r' ∧ c ≠ '\n' := by
  have hblank {c : Char} (hc : Text.isBlank c = false) : c ≠ '\r' ∧ c ≠ '\n' := by
    constructor <;> rintro rfl <;> exact absurd hc (by decide)
  cases h with
  | @invalid c hc hnot =>
    exact ⟨c, hc, hblank (Bool.eq_false_iff.mpr fun hb => hnot (.inl hb))⟩
  | @tooLarge run hrun _ =>
    have hpos := List.length_pos_iff.mpr hrun.nonempty
    obtain ⟨c, hc, hdigit⟩ := digit_of_isRun hrun (Nat.le_refl i) (by omega)
    refine ⟨c, hc, hblank (Bool.eq_false_iff.mpr fun hb => ?_)⟩
    rw [not_isDigit_of_isBlank hb] at hdigit
    cases hdigit

/-- Nothing is in the way in the line ends that close a text. -/
theorem lt_length_of_offenceAt {cs body ends : List Char} {i : Nat} {cause : ScanCause}
    (hclosed : Text.ClosedBy cs body ends) (h : OffenceAt cs i cause) : i < body.length := by
  obtain ⟨c, hc, hreturn, hfeed⟩ := exists_offender h
  refine Nat.lt_of_not_le fun hle => ?_
  rw [hclosed.whole, List.getElem?_append_right hle] at hc
  exact (hclosed.ends c (List.mem_of_getElem? hc)).elim hreturn hfeed

end Token

/-! ## 4. The caret -/

namespace Calculator

/-- Let no line feed stand in front of the line ends that close a text. A fault of scanning
the text has an index in the text, and is displayed on three lines: the message, the text
behind two spaces and without the line ends that close it, and the line of the caret. The
character at which the index counts from one is what the scanner cannot read. It has not
been trimmed, and stands on the second line where the only caret stands on the third. -/
theorem caret_below_offence {line : String} {body ends : List Char} {fault : Token.ScanFault}
    (hclosed : Text.ClosedBy line.toList body ends) (hbody : '\n' ∉ body)
    (hscan : Token.scan line = .error fault) :
    (1 ≤ fault.index ∧ fault.index ≤ line.length) ∧
    ∃ marker : List Char,
      ((Fault.scan fault).notice line).display.toList.splitOn '\n' =
        [fault.message.toList, ' ' :: ' ' :: body, marker] ∧
      marker.count '^' = 1 ∧
      ∃ (c : Char) (offset : Nat),
        line.toList[fault.index - 1]? = some c ∧
        Token.OffenceAt line.toList (fault.index - 1) fault.cause ∧
        body[fault.index - 1]? = some c ∧ offset = 2 + (fault.index - 1) ∧
        (' ' :: ' ' :: body)[offset]? = some c ∧ marker[offset]? = some '^' := by
  have haccounts := Token.ScanningLemmas.scan_accounts line
  rw [hscan] at haccounts
  obtain ⟨i, -, hindex, hoffence, -⟩ := haccounts
  have hinside := Token.lt_length_of_offenceAt hclosed hoffence
  obtain ⟨c, hc, -⟩ := Token.exists_offender hoffence
  have hbelow : body[i]? = some c := by
    rwa [hclosed.whole, List.getElem?_append_left hinside] at hc
  have hlength : body.length ≤ line.length := by
    rw [← String.length_toList, hclosed.whole, List.length_append]
    exact Nat.le_add_right _ _
  have hpred : fault.index - 1 = i := by omega
  let excerpt : Excerpt := ⟨String.ofList body, fault.index⟩
  have hnotice : (Fault.scan fault).notice line = ⟨fault.message, some excerpt⟩ := by
    show Notice.mk _ (some ⟨String.ofList (Text.trimEnd _ line.toList), _⟩) = _
    rw [Text.trimEnd_closed hclosed]
  have hpadding : excerpt.padding = 2 + i := by
    show (2 + (fault.index : Int) - 1).toNat = 2 + i
    omega
  have hmarker : excerpt.marker = List.replicate (2 + i) ' ' ++ ['^'] := by
    rw [Excerpt.marker, hpadding]
  have hmessage : OneLine fault.message := (LinesLemmas.plain_scanMessage fault).oneLine
  have hline : OneLine excerpt.line := by rwa [OneLine, String.toList_ofList]
  have hsplit := Notice.splitOn_display hmessage hline
  rw [← hnotice, String.toList_ofList] at hsplit
  rw [hpred]
  refine ⟨by omega, excerpt.marker, hsplit, ?_, c, 2 + i, hc, hoffence, hbelow, rfl, ?_, ?_⟩
  · rw [hmarker]
    simp [List.count_replicate]
  · rwa [Nat.add_comm]
  · rw [hmarker, List.getElem?_append_right (by simp)]
    simp

/-- The letter is the last character before the line ends are trimmed. -/
theorem caret_below_offence_letter :
    let line := "12+x\r\n"
    let body := "12+x".toList
    let fault : Token.ScanFault := ⟨.invalid 'x', 4⟩
    Text.ClosedBy line.toList body ['\r', '\n'] ∧ '\n' ∉ body ∧ Token.scan line = .error fault ∧
      ∃ marker : List Char,
        ((Fault.scan fault).notice line).display.toList.splitOn '\n' =
          ["Invalid token 'x' at index: 4".toList, "  12+x".toList, marker] ∧
        marker.count '^' = 1 ∧ "  12+x".toList[5]? = some 'x' ∧ marker[5]? = some '^' := by
  intro line body fault
  have hclosed : Text.ClosedBy line.toList body ['\r', '\n'] := by
    refine ⟨by decide, by simp, ?_⟩
    rintro _ ⟨⟩
    decide
  have hbody : '\n' ∉ body := by decide
  have hscan : Token.scan "12+x\r\n" = .error ⟨.invalid 'x', 4⟩ := by with_unfolding_all rfl
  have hmessage : fault.message = "Invalid token 'x' at index: 4" := by decide +kernel
  obtain ⟨-, marker, hsplit, hcount, c, offset, -, -, hc, hoffset, habove, hcaret⟩ :=
    caret_below_offence hclosed hbody hscan
  obtain rfl : c = 'x' := (Option.some.inj hc).symm
  subst hoffset
  rw [hmessage] at hsplit
  exact ⟨hclosed, hbody, hscan, marker, hsplit, hcount, habove, hcaret⟩

end Calculator

end Abacus
