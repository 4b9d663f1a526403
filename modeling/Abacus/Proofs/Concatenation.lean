import Abacus.Proofs.Checks
import Abacus.Proofs.Rescanning

/-!
# Scanning a text in two parts

A text that is cut anywhere but inside a run of digits is scanned part by part. So tokens
that are written with spaces between them are found again, and a line is scanned alike with
and without the line feed that ends it.

Results:
1. `scanFrom_append`: the tokens of a text are those of its parts, unless they meet inside
   a run of digits.
2. `scanFrom_append_error`: a fault stays what it is whatever follows, even more digits.
3. `scan_append`: how the scan of a text follows from those of its parts, faults included.
4. `scan_newline`: a line feed behind a line does not matter.
5. `scan_render`: tokens written with spaces between them are scanned into the same tokens
   exactly when their numbers are in range.
-/

namespace Abacus.Token

open RescanningLemmas

/-! ## 1. Two parts -/

/-- Two texts do not meet inside a run of digits. -/
def Apart (cs ds : List Char) : Prop :=
  ∀ c ∈ cs.getLast?, Numeral.isDigit c = true → NoDigitFirst ds

variable {index : Nat} {c : Char} {cs cs' ds : List Char}

theorem apart_of_noDigitFirst (h : NoDigitFirst ds) : Apart cs ds := fun _ _ _ => h

theorem Apart.of_suffix (h : Apart cs ds) (hsuffix : cs' <:+ cs) : Apart cs' ds := by
  obtain ⟨front, rfl⟩ := hsuffix
  intro c hc
  have hlast : c ∈ (front ++ cs').getLast? := by
    rw [List.getLast?_append, Option.mem_def.mp hc]
    rfl
  exact h c hlast

namespace ConcatenationLemmas

/-- The run of digits at the front of the first part ends inside that part. -/
theorem span_append (hdigit : Numeral.isDigit c = true) (h : Apart (c :: cs) ds) :
    (cs ++ ds).takeWhile Numeral.isDigit = cs.takeWhile Numeral.isDigit ∧
      (cs ++ ds).dropWhile Numeral.isDigit = cs.dropWhile Numeral.isDigit ++ ds := by
  induction cs generalizing c with
  | nil =>
    have hds : NoDigitFirst ds := h c rfl hdigit
    cases ds with
    | nil => exact ⟨rfl, rfl⟩
    | cons d ds =>
      have hd : ¬ Numeral.isDigit d = true := Bool.eq_false_iff.mp (hds d rfl)
      exact ⟨List.takeWhile_cons_of_neg hd, List.dropWhile_cons_of_neg hd⟩
  | cons d cs ih =>
    by_cases hd : Numeral.isDigit d = true
    · obtain ⟨htake, hdrop⟩ := ih hd (h.of_suffix (List.suffix_cons c (d :: cs)))
      rw [List.cons_append, List.takeWhile_cons_of_pos hd, List.takeWhile_cons_of_pos hd,
        List.dropWhile_cons_of_pos hd, List.dropWhile_cons_of_pos hd, htake, hdrop]
      exact ⟨rfl, rfl⟩
    · rw [List.cons_append, List.takeWhile_cons_of_neg hd, List.takeWhile_cons_of_neg hd,
        List.dropWhile_cons_of_neg hd, List.dropWhile_cons_of_neg hd]
      exact ⟨rfl, rfl⟩

/-- A run of digits at the front is read at once. -/
theorem scanFrom_run (hblank : ¬ Text.isBlank c = true) (hdigit : Numeral.isDigit c = true) :
    scanFrom index (c :: cs) =
      if exceedsMax (Numeral.significant (c :: cs.takeWhile Numeral.isDigit)) then
        .error ⟨.tooLarge, index⟩
      else
        (.number (Numeral.value (Numeral.significant (c :: cs.takeWhile Numeral.isDigit))) :: ·) <$>
          scanFrom (index + (c :: cs.takeWhile Numeral.isDigit).length)
            (cs.dropWhile Numeral.isDigit) := by
  rw [scanFrom.eq_def]
  dsimp only
  rw [if_neg hblank, if_pos hdigit]

theorem scanFrom_invalid (hblank : ¬ Text.isBlank c = true) (hdigit : ¬ Numeral.isDigit c = true)
    (hnone : ofChar? c = none) : scanFrom index (c :: cs) = .error ⟨.invalid c, index⟩ := by
  rw [scanFrom.eq_def]
  dsimp only
  rw [if_neg hblank, if_neg hdigit, hnone]

end ConcatenationLemmas

open ConcatenationLemmas

/-- A text that is not cut inside a run of digits has the tokens of its parts, and a fault of
its first part is a fault of the whole. -/
theorem scanFrom_append (h : Apart cs ds) (index : Nat) :
    scanFrom index (cs ++ ds) = do
      let front ← scanFrom index cs
      let behind ← scanFrom (index + cs.length) ds
      return front ++ behind := by
  fun_induction scanFrom index cs with
  | case1 index => exact (id_map _).symm
  | case2 index c cs hblank ih =>
    rw [List.cons_append, scanFrom_blank hblank, ih (h.of_suffix (List.suffix_cons c cs)),
      List.length_cons, Nat.add_assoc, Nat.add_comm 1]
  | case3 index c cs hblank hdigit run ds' hlarge =>
    obtain ⟨htake, -⟩ := span_append hdigit h
    rw [List.cons_append, scanFrom_run hblank hdigit, htake, if_pos hlarge]
    rfl
  | case4 index c cs hblank hdigit run ds' hsmall ih =>
    obtain ⟨htake, hdrop⟩ := span_append hdigit h
    have hsuffix : cs.dropWhile Numeral.isDigit <:+ c :: cs :=
      (List.dropWhile_suffix _).trans (List.suffix_cons c cs)
    have hlength : index + run.length + (cs.dropWhile Numeral.isDigit).length =
        index + (c :: cs).length := by
      have := congrArg List.length
        (List.takeWhile_append_dropWhile (p := Numeral.isDigit) (l := cs))
      simp only [run, List.length_append, List.length_cons] at this ⊢
      omega
    rw [List.cons_append, scanFrom_run hblank hdigit, htake, hdrop, if_neg hsmall,
      ih (h.of_suffix hsuffix), hlength]
    simp only [map_eq_pure_bind, bind_assoc, pure_bind, List.cons_append]
    rfl
  | case5 index c cs hblank hdigit t ht ih =>
    have hmem := ScanningLemmas.ofChar?_eq_some.mp ht
    rw [List.cons_append, scanFrom_symbol hmem, ih (h.of_suffix (List.suffix_cons c cs)),
      List.length_cons, Nat.add_assoc, Nat.add_comm 1]
    simp only [map_eq_pure_bind, bind_assoc, pure_bind, List.cons_append]
  | case6 index c cs hblank hdigit hnone =>
    rw [List.cons_append, scanFrom_invalid hblank hdigit hnone]
    rfl

/-! ## 2. Faults -/

/-- The same fault in a text with this many more characters in front. -/
def ScanFault.behind (count : Nat) (fault : ScanFault) : ScanFault :=
  { fault with index := count + fault.index }

namespace ConcatenationLemmas

/-- The index of the first character only shifts the index of a fault. -/
theorem scanFrom_add (count index : Nat) (cs : List Char) :
    scanFrom (count + index) cs = (scanFrom index cs).mapError (ScanFault.behind count) := by
  fun_induction scanFrom index cs with
  | case1 index => exact scanFrom_nil
  | case2 index c cs hblank ih =>
    rw [scanFrom_blank hblank, Nat.add_assoc]
    exact ih
  | case3 index c cs hblank hdigit run ds hlarge =>
    rw [scanFrom_run hblank hdigit, if_pos hlarge]
    rfl
  | case4 index c cs hblank hdigit run ds hsmall ih =>
    rw [scanFrom_run hblank hdigit, if_neg hsmall, Nat.add_assoc, ih]
    cases scanFrom (index + run.length) (cs.dropWhile Numeral.isDigit) <;> rfl
  | case5 index c cs hblank hdigit t ht ih =>
    rw [scanFrom_symbol (ScanningLemmas.ofChar?_eq_some.mp ht), Nat.add_assoc, ih]
    cases scanFrom (index + 1) cs <;> rfl
  | case6 index c cs hblank hdigit hnone =>
    rw [scanFrom_invalid hblank hdigit hnone]
    rfl

theorem takeWhile_prefix_append (cs ds : List Char) :
    cs.takeWhile Numeral.isDigit <+: (cs ++ ds).takeWhile Numeral.isDigit := by
  rw [List.takeWhile_append]
  split
  · exact (List.takeWhile_prefix _).trans (List.prefix_append _ _)
  · exact List.prefix_refl _

/-- More digits make a number no smaller. -/
theorem value_le_value_append (ds more : List Char) :
    Numeral.value ds ≤ Numeral.value (ds ++ more) := by
  calc Numeral.value ds ≤ Numeral.value ds * Nat.pow 10 more.length :=
        Nat.le_mul_of_pos_right _ (Nat.pow_pos (by decide))
    _ ≤ Numeral.value (ds ++ more) := by
      rw [Numeral.value, Numeral.value, List.foldl_append, Numeral.foldl_digitValue more]
      exact Nat.le_add_right _ _

/-- A run of digits that is too large is still so with more digits behind it. -/
theorem exceedsMax_append (hdigit : Numeral.isDigit c = true)
    (h : exceedsMax (Numeral.significant (c :: cs.takeWhile Numeral.isDigit)) = true) :
    exceedsMax (Numeral.significant (c :: (cs ++ ds).takeWhile Numeral.isDigit)) = true := by
  have hdigits (es : List Char) :
      ∀ d ∈ c :: es.takeWhile Numeral.isDigit, Numeral.isDigit d = true :=
    List.forall_mem_cons.mpr ⟨hdigit, List.all_eq_true.mp List.all_takeWhile⟩
  obtain ⟨more, hmore⟩ := takeWhile_prefix_append cs ds
  rw [exceedsMax_significant (hdigits _)] at h ⊢
  rw [← hmore, ← List.cons_append]
  exact Nat.lt_of_lt_of_le h (value_le_value_append _ more)

/-- A text that a run of digits does not fill ends apart from whatever follows it. -/
theorem span_append_of_ne_nil (ds : List Char) (h : cs.dropWhile Numeral.isDigit ≠ []) :
    (cs ++ ds).takeWhile Numeral.isDigit = cs.takeWhile Numeral.isDigit ∧
      (cs ++ ds).dropWhile Numeral.isDigit = cs.dropWhile Numeral.isDigit ++ ds := by
  have hlength : (cs.takeWhile Numeral.isDigit).length ≠ cs.length := by
    intro heq
    have hsplit := List.takeWhile_append_dropWhile (p := Numeral.isDigit) (l := cs)
    rw [(List.takeWhile_prefix Numeral.isDigit).eq_of_length heq] at hsplit
    exact h (List.append_right_eq_self.mp hsplit)
  constructor
  · rw [List.takeWhile_append, if_neg hlength]
  · rw [List.dropWhile_append, if_neg (by simpa using h)]

end ConcatenationLemmas

/-- A fault of a text stays the same fault whatever is written behind the text. -/
theorem scanFrom_append_error {fault : ScanFault} (h : scanFrom index cs = .error fault) :
    scanFrom index (cs ++ ds) = .error fault := by
  fun_induction scanFrom index cs with
  | case1 index => cases h
  | case2 index c cs hblank ih =>
    rw [List.cons_append, scanFrom_blank hblank]
    exact ih h
  | case3 index c cs hblank hdigit run es hlarge =>
    rw [List.cons_append, scanFrom_run hblank hdigit, if_pos (exceedsMax_append hdigit hlarge)]
    exact h
  | case4 index c cs hblank hdigit run es hsmall ih =>
    cases hrest : scanFrom (index + run.length) (cs.dropWhile Numeral.isDigit) with
    | ok ts =>
      rw [hrest] at h
      cases h
    | error fault' =>
      -- The fault lies behind the run, so the run is not what the text ends with.
      have hne : cs.dropWhile Numeral.isDigit ≠ [] := by
        intro hnil
        rw [hnil, scanFrom_nil] at hrest
        cases hrest
      obtain ⟨htake, hdrop⟩ := span_append_of_ne_nil ds hne
      rw [hrest] at h
      obtain rfl : fault' = fault := Except.error.inj h
      rw [List.cons_append, scanFrom_run hblank hdigit, htake, hdrop, if_neg hsmall, ih hrest]
      rfl
  | case5 index c cs hblank hdigit t ht ih =>
    rw [List.cons_append, scanFrom_symbol (ScanningLemmas.ofChar?_eq_some.mp ht)]
    cases hrest : scanFrom (index + 1) cs with
    | ok ts =>
      rw [hrest] at h
      cases h
    | error fault' =>
      rw [hrest] at h
      obtain rfl : fault' = fault := Except.error.inj h
      rw [ih hrest]
      rfl
  | case6 index c cs hblank hdigit hnone =>
    rw [List.cons_append, scanFrom_invalid hblank hdigit hnone]
    exact h

/-- How a text in two parts is scanned. A fault of the first part is that of the whole. If
the first part has none, and the parts do not meet inside a run of digits, the tokens of the
whole are those of the first part and then those of the second, and a fault of the second
part is that of the whole behind all characters of the first. -/
theorem scan_append (a b : String) :
    (∀ fault, scan a = .error fault → scan (a ++ b) = .error fault) ∧
    ∀ ts, scan a = .ok ts → Apart a.toList b.toList →
      (∀ us, scan b = .ok us → scan (a ++ b) = .ok (ts ++ us)) ∧
      ∀ fault, scan b = .error fault → scan (a ++ b) = .error (fault.behind a.length) := by
  rw [scan, scan, scan, String.toList_append]
  refine ⟨fun fault => scanFrom_append_error, fun ts hts hapart => ?_⟩
  have hbehind : scanFrom (1 + a.toList.length) b.toList =
      (scanFrom 1 b.toList).mapError (ScanFault.behind a.length) := by
    rw [Nat.add_comm, String.length_toList, scanFrom_add]
  rw [scanFrom_append hapart, hts, hbehind]
  refine ⟨fun us hus => ?_, fun fault hfault => ?_⟩
  · rw [hus]
    rfl
  · rw [hfault]
    rfl

/-! ## 3. The line feed behind a line -/

theorem scan_newline (line : String) : scan (line ++ "\n") = scan line := by
  have hapart : Apart line.toList ['\n'] := apart_of_noDigitFirst (noDigitFirst_cons (by decide))
  have hbehind (index : Nat) : scanFrom index ['\n'] = .ok [] := by
    rw [scanFrom_blank (by decide), scanFrom_nil]
  rw [scan, String.toList_append]
  show scanFrom 1 (line.toList ++ ['\n']) = scan line
  rw [scanFrom_append hapart, hbehind, scan]
  cases scanFrom 1 line.toList with
  | error fault => rfl
  | ok ts => exact congrArg Except.ok (List.append_nil ts)

/-! ## 4. Tokens with spaces between them -/

namespace ConcatenationLemmas

theorem scanFrom_text {t : Token} (h : ∀ v, t = .number v → InRange v) (index : Nat) :
    scanFrom index t.text.toList = .ok [t] := by
  cases t with
  | number v =>
    obtain ⟨hv, hmax⟩ := h v rfl
    obtain ⟨n, rfl⟩ := Int.eq_ofNat_of_zero_le hv
    have hend : NoDigitFirst [] := nofun
    rw [text, Numeral.ofInt_natCast, Numeral.toList_ofNat, ← List.append_nil (Numeral.digits n),
      scanFrom_digits (Int.ofNat_le.mp hmax) hend, scanFrom_nil]
    rfl
  | operator op =>
    rw [text, Operator.text, String.toList_singleton, scanFrom_symbol (mem_symbols op),
      scanFrom_nil]
    rfl
  | opening =>
    show scanFrom index ['('] = .ok [.opening]
    rw [scanFrom_symbol (t := .opening) (by decide), scanFrom_nil]
    rfl
  | closing =>
    show scanFrom index [')'] = .ok [.closing]
    rw [scanFrom_symbol (t := .closing) (by decide), scanFrom_nil]
    rfl

theorem scanFrom_render {ts : List Token} (h : NumbersInRange ts) (index : Nat) :
    scanFrom index (render ts).toList = .ok ts := by
  induction ts using render.induct generalizing index with
  | case1 => exact scanFrom_nil
  | case2 t =>
    have ht : ∀ v, t = .number v → InRange v := fun v hv => h v (List.mem_singleton.mpr hv.symm)
    exact scanFrom_text ht index
  | case3 t ts hne ih =>
    have ht : ∀ v, t = .number v → InRange v := fun v hv => h v (hv ▸ List.mem_cons_self)
    have hts : NumbersInRange ts := fun v hv => h v (List.mem_cons_of_mem t hv)
    have hchars : (render (t :: ts)).toList = t.text.toList ++ ' ' :: (render ts).toList := by
      rw [render]
      · simp
      · exact hne
    have hapart : Apart t.text.toList (' ' :: (render ts).toList) :=
      apart_of_noDigitFirst (noDigitFirst_cons (by decide))
    rw [hchars, scanFrom_append hapart, scanFrom_text ht, scanFrom_blank (by decide), ih hts]
    rfl

end ConcatenationLemmas

/-- Tokens that are written with single spaces between them are scanned into the same tokens,
in whatever order they stand, as long as their numbers are in range, and only then. -/
theorem scan_render (ts : List Token) : scan (render ts) = .ok ts ↔ NumbersInRange ts :=
  ⟨numbersInRange_scan, fun h => scanFrom_render h 1⟩

end Abacus.Token
