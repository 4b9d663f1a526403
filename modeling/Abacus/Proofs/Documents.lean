import Abacus.Toml.Document

/-!
# What a document is refused for

A document is refused as invalid, and only for a decimal integer that is too long with a fault
of its own.

Results:
1. `readKey_fault`, `readText_fault`: keys and strings are refused as invalid and in no other
   way.
2. `readValue_fitting`, `parse_fault`: an integer that is too long has more digits than can be
   read, and no more than the text has characters.
3. `parse_tooLong`: an integer of any number of digits beyond the limit is too long.
4. `readLines_eq_of_line`, `readLines_eq_of_entry`, `readLines_eq_of_end`: how a document that is
   not refused is read, a line at a time.
-/

namespace Abacus.Toml

variable {cs : List Char} {fault : Fault}

/-! ## 1. Strings, keys and blanks -/

namespace DocumentsLemmas

theorem readCodePoint_fault {width : Nat} (h : readCodePoint width cs = .error fault) :
    fault = .invalid := by
  unfold readCodePoint at h
  grind

theorem readEscape_fault {inLines : Bool} (h : readEscape inLines cs = .error fault) :
    fault = .invalid := by
  unfold readEscape at h
  grind [readCodePoint_fault]

theorem readBasic_fault (h : readBasic cs = .error fault) : fault = .invalid := by
  fun_induction readBasic cs <;> grind [readEscape_fault, weaken_eq_error, prepend_eq_error]

theorem readBasicLines_fault (h : readBasicLines cs = .error fault) : fault = .invalid := by
  fun_induction readBasicLines cs <;> grind [readEscape_fault, weaken_eq_error, prepend_eq_error]

theorem readLiteral_fault (h : readLiteral cs = .error fault) : fault = .invalid := by
  fun_induction readLiteral cs <;> grind [weaken_eq_error, prepend_eq_error]

theorem readLiteralLines_fault (h : readLiteralLines cs = .error fault) : fault = .invalid := by
  fun_induction readLiteralLines cs <;> grind [weaken_eq_error, prepend_eq_error]

theorem readKeyPart_fault (h : readKeyPart cs = .error fault) : fault = .invalid := by
  unfold readKeyPart at h
  grind [readBasic_fault, readLiteral_fault]

theorem skipTrivia_fault (h : skipTrivia cs = .error fault) : fault = .invalid := by
  fun_induction skipTrivia cs <;> grind

theorem skipComment_fault (h : skipComment cs = .error fault) : fault = .invalid := by
  unfold skipComment at h
  grind

end DocumentsLemmas

open DocumentsLemmas

theorem readText_fault (h : readText cs = .error fault) : fault = .invalid := by
  unfold readText at h
  split at h
  · exact readBasicLines_fault (weaken_eq_error.mp h)
  · exact readLiteralLines_fault (weaken_eq_error.mp h)
  · exact readBasic_fault (weaken_eq_error.mp h)
  · exact readLiteral_fault (weaken_eq_error.mp h)
  · cases h
    rfl

theorem readKey_fault (h : readKey cs = .error fault) : fault = .invalid := by
  fun_induction readKey cs <;> grind [readKeyPart_fault]

/-! ## 2. Integers that are too long -/

/-- A fault that a text of this length can have: an integer in it has more digits than can be
read, and no more than the text has characters. -/
def Fault.Fits (length : Nat) : Fault → Prop
  | .invalid => True
  | .integerTooLong digits => Numeral.maxLength < digits ∧ digits ≤ length

theorem Fault.Fits.mono {short long : Nat} (h : fault.Fits short) (hle : short ≤ long) :
    fault.Fits long := by
  cases fault with
  | invalid => trivial
  | integerTooLong digits => exact ⟨h.1, Nat.le_trans h.2 hle⟩

theorem Fault.fits_of_invalid {length : Nat} (h : fault = .invalid) : fault.Fits length := by
  rw [h]
  trivial

namespace DocumentsLemmas

theorem length_readRun (class? : Char → Bool) (cs : List Char) :
    (readRun class? cs).1.length ≤ cs.length := by
  fun_induction readRun class? cs <;> grind

theorem length_readSign (cs : List Char) : (readSign cs).2.length ≤ cs.length := by
  fun_cases readSign cs <;> grind

theorem length_readWhole? {whole rest : List Char} (h : readWhole? cs = some (whole, rest)) :
    whole.length ≤ cs.length := by
  unfold readWhole? at h
  split at h
  · cases h
    exact Nat.le_add_left _ _
  · have hrun := length_readRun Numeral.isDigit cs
    split at h
    · cases h
    · rw [Option.some.inj h] at hrun
      exact hrun

/-- An integer is refused for its length, and for nothing else. -/
theorem readDecimal?_fault {rest : List Char} (h : readDecimal? cs = some (.error fault, rest)) :
    fault.Fits cs.length := by
  unfold readDecimal? at h
  dsimp only at h
  split at h
  · cases h
  · next whole tail hwhole =>
    have hlength := Nat.le_trans (length_readWhole? hwhole) (length_readSign cs)
    split at h
    · split at h
      · next hlong =>
        cases h
        exact ⟨hlong, hlength⟩
      · cases h
    · cases h

theorem readDate?_fault {rest : List Char} (h : readDate? cs = some (.error fault, rest)) :
    fault = .invalid := by
  unfold readDate? at h
  simp only [Option.bind_eq_bind, Option.bind_eq_some_iff, Option.pure_def, Option.some.injEq,
    Prod.mk.injEq] at h
  obtain ⟨_, -, _, -, _, -, _, -, _, -, _, -, hday, -⟩ := h
  split at hday
  · cases hday
  · cases hday
    rfl

theorem readScalar?_fault {rest : List Char} (h : readScalar? cs = some (.error fault, rest)) :
    fault.Fits cs.length := by
  unfold readScalar? at h
  split at h
  · cases h
  · cases h
  · simp only [Option.or_eq_some_iff, Option.map_eq_some_iff, Prod.mk.injEq] at h
    rcases h with hdate | ⟨-, ⟨_, -, htime, -⟩ | ⟨-, ⟨_, -, hmarked, -⟩ |
      ⟨-, hdecimal | ⟨-, _, -, hspecial, -⟩⟩⟩⟩
    · exact Fault.fits_of_invalid (readDate?_fault hdate)
    · cases htime
    · cases hmarked
    · exact readDecimal?_fault hdecimal
    · cases hspecial

theorem readScalar_fault (h : readScalar cs = .error fault) : fault.Fits cs.length := by
  unfold readScalar at h
  split at h
  · split at h
    · cases h
    · cases h
      trivial
  · next hscalar =>
    cases h
    exact readScalar?_fault hscalar
  · cases h
    trivial

/-- What stands behind a part, a character after it and blanks is shorter than the text. -/
theorem length_dropWhile_lt {α : Type} {bound : Nat} {p : Part α bound} {c : Char}
    {tail : List Char} (h : p.rest = c :: tail) : (tail.dropWhile isSpace).length < bound := by
  have hrest := p.length_rest_lt
  rw [h, List.length_cons] at hrest
  exact Nat.lt_of_le_of_lt (List.dropWhile_suffix isSpace).length_le (Nat.lt_of_succ_lt hrest)

/-- What a reader answers about a text of this length: a part, or a fault that it can have. -/
def Fitting {α : Type} {bound : Nat} (length : Nat) (r : Result α bound) : Prop :=
  ∀ fault, r = .error fault → fault.Fits length

/-! A value, the items of an array and the entries of a table are read by each other. One step
of each: it answers so if the readers that it calls on shorter texts do. -/

theorem readValue_step
    (hitems : ∀ rest, rest.length < cs.length → Fitting rest.length (readItems [] rest))
    (hentries : ∀ rest, rest.length < cs.length → Fitting rest.length (readEntries ⟨[], []⟩ rest)) :
    Fitting cs.length (readValue cs) := by
  intro fault h
  rw [readValue.eq_def] at h
  split at h
  · next tail =>
    split at h
    · next htrivia =>
      cases h
      exact Fault.fits_of_invalid (skipTrivia_fault htrivia)
    · next items hafter =>
      split at h
      · next hread =>
        cases h
        have hshorter : items.val.length < ('[' :: tail).length :=
          Nat.lt_succ_of_le items.property
        exact (hitems _ hshorter _ hread).mono (Nat.le_of_lt hshorter)
      · cases h
  · next tail =>
    split at h
    · cases h
    · split at h
      · next hread =>
        cases h
        have hshorter : (tail.dropWhile isSpace).length < ('\x7b' :: tail).length :=
          Nat.lt_succ_of_le (List.dropWhile_suffix _).length_le
        exact (hentries _ hshorter _ hread).mono (Nat.le_of_lt hshorter)
      · cases h
  · split at h
    · split at h
      · next htext =>
        cases h
        exact Fault.fits_of_invalid (readText_fault htext)
      · cases h
    · exact readScalar_fault h
  · cases h
    trivial

theorem readItems_step {items : List Value} (hvalue : Fitting cs.length (readValue cs))
    (hitems : ∀ items rest, rest.length < cs.length →
      Fitting rest.length (readItems items rest)) :
    Fitting cs.length (readItems items cs) := by
  intro fault h
  rw [readItems.eq_def] at h
  split at h
  · cases h
  split at h
  · next hread =>
    cases h
    exact hvalue _ hread
  next item hitem =>
  split at h
  · next htrivia =>
    cases h
    exact Fault.fits_of_invalid (skipTrivia_fault htrivia)
  next after hafter =>
  split at h
  · cases h
  · next tail hcomma =>
    split at h
    · next htrivia =>
      cases h
      exact Fault.fits_of_invalid (skipTrivia_fault htrivia)
    · next next hnext =>
      split at h
      · next hread =>
        cases h
        have hshorter : next.val.length < cs.length := by
          have h₁ := item.length_rest_lt
          have h₂ := after.property
          have h₃ := next.property
          rw [hcomma, List.length_cons] at h₂
          omega
        exact (hitems _ _ hshorter _ hread).mono (Nat.le_of_lt hshorter)
      · cases h
  · cases h
    trivial

theorem readEntries_step {t : InlineTable}
    (hvalue : ∀ rest, rest.length < cs.length → Fitting rest.length (readValue rest))
    (hentries : ∀ t rest, rest.length < cs.length → Fitting rest.length (readEntries t rest)) :
    Fitting cs.length (readEntries t cs) := by
  intro fault h
  rw [readEntries.eq_def] at h
  split at h
  · next hkey =>
    cases h
    exact Fault.fits_of_invalid (readKey_fault hkey)
  next key hkey =>
  split at h
  · next tail hequals =>
    have hbody := length_dropWhile_lt hequals
    split at h
    · next hread =>
      cases h
      exact (hvalue _ hbody _ hread).mono (Nat.le_of_lt hbody)
    next entry hentry =>
    split at h
    · cases h
      trivial
    split at h
    · cases h
    · next rest hcomma =>
      split at h
      · next hread =>
        cases h
        have hshorter := Nat.lt_trans (length_dropWhile_lt (p := entry.skip isSpace) hcomma) hbody
        exact (hentries _ _ hshorter _ hread).mono (Nat.le_of_lt hshorter)
      · cases h
    · cases h
      trivial
  · cases h
    trivial

theorem readCompound_fitting {bound : Nat} : ∀ cs : List Char, cs.length < bound →
    Fitting cs.length (readValue cs) ∧
      (∀ items, Fitting cs.length (readItems items cs)) ∧
      ∀ t, Fitting cs.length (readEntries t cs) := by
  -- On a bound of the length, and values first: an item begins where the items do.
  induction bound with
  | zero => exact fun cs hcs => absurd hcs (Nat.not_lt_zero _)
  | succ bound ih =>
    intro cs hcs
    have shorter (rest : List Char) (hrest : rest.length < cs.length) :=
      ih rest (Nat.lt_of_lt_of_le hrest (Nat.le_of_lt_succ hcs))
    have hvalue : Fitting cs.length (readValue cs) :=
      readValue_step (fun rest hrest => (shorter rest hrest).2.1 [])
        (fun rest hrest => (shorter rest hrest).2.2 ⟨[], []⟩)
    exact ⟨hvalue,
      fun _ => readItems_step hvalue fun items rest hrest => (shorter rest hrest).2.1 items,
      fun _ => readEntries_step (fun rest hrest => (shorter rest hrest).1)
        fun t rest hrest => (shorter rest hrest).2.2 t⟩

theorem readValue_fitting (cs : List Char) : Fitting cs.length (readValue cs) :=
  (readCompound_fitting cs (Nat.lt_succ_self _)).1

theorem readEntry_fitting (d : Document) (cs : List Char) :
    Fitting cs.length (readEntry d cs) := by
  intro fault h
  unfold readEntry at h
  split at h
  · next hkey =>
    cases h
    exact Fault.fits_of_invalid (readKey_fault hkey)
  next key hkey =>
  split at h
  · next tail hequals =>
    split at h
    · next hread =>
      cases h
      exact (readValue_fitting _ _ hread).mono (Nat.le_of_lt (length_dropWhile_lt hequals))
    · split at h
      · cases h
        trivial
      · cases h
  · cases h
    trivial

theorem readArrayHeader_fault {d : Document} (h : readArrayHeader d cs = .error fault) :
    fault = .invalid := by
  unfold readArrayHeader at h
  grind [readKey_fault]

theorem readTableHeader_fault {d : Document} (h : readTableHeader d cs = .error fault) :
    fault = .invalid := by
  unfold readTableHeader at h
  grind [readKey_fault]

theorem readStatement_fitting (d : Document) (cs : List Char) :
    Fitting cs.length (readStatement d cs) := by
  intro fault h
  unfold readStatement at h
  split at h
  · exact Fault.fits_of_invalid (readArrayHeader_fault (weaken_eq_error.mp h))
  · exact Fault.fits_of_invalid (readTableHeader_fault (weaken_eq_error.mp h))
  · cases h
  · cases h
  · cases h
  · split at h
    · exact readEntry_fitting d _ _ (weaken_eq_error.mp h)
    · cases h
      trivial

theorem readLines_fault {d : Document} (h : readLines d cs = .error fault) :
    fault.Fits cs.length := by
  fun_induction readLines d cs with
  | case1 d cs stop hstatement =>
    cases h
    exact (readStatement_fitting d _ _ hstatement).mono (List.dropWhile_suffix isSpace).length_le
  | case2 d cs statement hstatement stop hcomment =>
    cases h
    exact Fault.fits_of_invalid (skipComment_fault hcomment)
  | case3 => cases h
  | case4 d cs statement hstatement tail hcomment ih =>
    have hshorter : tail.length ≤ cs.length := by
      have h₁ := (List.dropWhile_suffix (l := cs) isSpace).length_le
      have h₂ := (statement.skip isSpace).length_rest_lt
      have h₃ := length_skipComment hcomment
      simp only [Part.skip, List.length_cons] at h₂ h₃
      omega
    exact (ih h).mono hshorter
  | case5 =>
    cases h
    trivial

end DocumentsLemmas

/-- A document is refused as invalid, or for an integer that has more digits than can be read
and no more than the document has characters. -/
theorem parse_fault (h : parse cs = .error fault) : fault.Fits cs.length := by
  rw [parse] at h
  cases hread : readLines .empty cs with
  | ok d =>
    rw [hread] at h
    cases h
  | error stop =>
    rw [hread] at h
    cases h
    exact readLines_fault hread

/-! ## 3. An integer of any length beyond the limit -/

/-- The digits of a decimal integer that is too long to be read. -/
structure TooLong (ds : List Char) : Prop where
  digits : ∀ d ∈ ds, Numeral.isDigit d
  noZeroFirst : ∀ tail, ds ≠ '0' :: tail
  long : Numeral.maxLength < ds.length

namespace DocumentsLemmas

variable {ds : List Char}

theorem readRun_digits (hdigits : ∀ d ∈ ds, Numeral.isDigit d) :
    readRun Numeral.isDigit ds = (ds, []) := by
  induction ds with
  | nil => rw [readRun]
  | cons d ds ih =>
    obtain ⟨hd, hds⟩ := List.forall_mem_cons.mp hdigits
    rw [readRun.eq_def]
    dsimp only
    rw [if_pos hd]
    split
    · exact absurd (hds '_' List.mem_cons_self) (by decide)
    · rw [ih hds]

theorem ne_cons_of_isDigit {c : Char} {tail : List Char} (hdigits : ∀ d ∈ ds, Numeral.isDigit d)
    (hc : ¬ Numeral.isDigit c) : ds ≠ c :: tail := by
  rintro rfl
  exact hc (hdigits c List.mem_cons_self)

theorem readSign_digits (hdigits : ∀ d ∈ ds, Numeral.isDigit d) : readSign ds = (false, ds) :=
  readSign.eq_3 ds (fun _ => ne_cons_of_isDigit hdigits (by decide))
    (fun _ => ne_cons_of_isDigit hdigits (by decide))

theorem readWhole?_tooLong (h : TooLong ds) : readWhole? ds = some (ds, []) := by
  rw [readWhole?.eq_2 ds h.noZeroFirst, readRun_digits h.digits]
  cases ds with
  | nil => cases h.long
  | cons d ds => rfl

theorem readDecimal?_tooLong (h : TooLong ds) :
    readDecimal? ds = some (.error (.integerTooLong ds.length), []) := by
  rw [readDecimal?, readSign_digits h.digits]
  dsimp only
  rw [readWhole?_tooLong h]
  exact if_pos h.long

theorem readTwo?_eq {low high n : Nat} {cs rest : List Char}
    (h : readTwo? low high cs = some (n, rest)) : ∃ a b, cs = a :: b :: rest := by
  unfold readTwo? at h
  split at h
  · next a b _ =>
    split at h
    · cases h
      exact ⟨a, b, rfl⟩
    · cases h
  · cases h

theorem readChar?_eq {c : Char} {cs rest : List Char}
    (h : readChar? c cs = some rest) : cs = c :: rest := by
  unfold readChar? at h
  split at h
  · split at h
    · next hc =>
      cases h
      rw [hc]
    · cases h
  · cases h

theorem readDate?_digits (hdigits : ∀ d ∈ ds, Numeral.isDigit d) : readDate? ds = none := by
  rw [Option.eq_none_iff_forall_ne_some]
  intro found h
  unfold readDate? at h
  simp only [Option.bind_eq_bind, Option.bind_eq_some_iff] at h
  obtain ⟨century, hcentury, year, hyear, rest, hhyphen, -⟩ := h
  obtain ⟨a, b, rfl⟩ := readTwo?_eq hcentury
  obtain ⟨c, d, hrest⟩ := readTwo?_eq hyear
  rw [hrest, readChar?_eq hhyphen] at hdigits
  exact absurd (hdigits '-' (by simp)) (by decide)

theorem readTime?_digits (hdigits : ∀ d ∈ ds, Numeral.isDigit d) : readTime? ds = none := by
  rw [Option.eq_none_iff_forall_ne_some]
  intro found h
  unfold readTime? at h
  simp only [Option.bind_eq_bind, Option.bind_eq_some_iff] at h
  obtain ⟨hours, hhours, rest, hcolon, -⟩ := h
  obtain ⟨a, b, rfl⟩ := readTwo?_eq hhours
  rw [readChar?_eq hcolon] at hdigits
  exact absurd (hdigits ':' (by simp)) (by decide)

theorem after?_digits {w : Char} {word : List Char} (hdigits : ∀ d ∈ ds, Numeral.isDigit d)
    (hw : ¬ Numeral.isDigit w) : after? (w :: word) ds = none := by
  cases ds with
  | nil => rfl
  | cons d ds =>
    rw [after?, if_neg]
    rintro rfl
    exact hw (hdigits w List.mem_cons_self)

theorem readScalar_tooLong (h : TooLong ds) :
    readScalar ds = .error (.integerTooLong ds.length) := by
  have hmarked : readMarked? ds = none :=
    readMarked?.eq_2 ds fun _ _ hmarked => h.noZeroFirst _ hmarked
  rw [readScalar, readScalar?, after?_digits h.digits (by decide),
    after?_digits h.digits (by decide), readDate?_digits h.digits, readTime?_digits h.digits,
    hmarked, readDecimal?_tooLong h]
  rfl

theorem readValue_tooLong (h : TooLong ds) : readValue ds = .error (.integerTooLong ds.length) := by
  have hscalar := readScalar_tooLong h
  rw [readValue.eq_def]
  split
  · exact absurd rfl (ne_cons_of_isDigit h.digits (by decide))
  · exact absurd rfl (ne_cons_of_isDigit h.digits (by decide))
  · rw [if_neg, hscalar]
    rintro (rfl | rfl)
    · exact absurd rfl (ne_cons_of_isDigit h.digits (by decide))
    · exact absurd rfl (ne_cons_of_isDigit h.digits (by decide))
  · cases h.long

theorem dropWhile_isSpace_digits (hdigits : ∀ d ∈ ds, Numeral.isDigit d) :
    ds.dropWhile isSpace = ds := by
  cases ds with
  | nil => rfl
  | cons d ds =>
    refine List.dropWhile_cons_of_neg fun hd => ?_
    rw [isSpace, Bool.or_eq_true, beq_iff_eq, beq_iff_eq] at hd
    obtain rfl | rfl := hd
    · exact ne_cons_of_isDigit hdigits (by decide) rfl
    · exact ne_cons_of_isDigit hdigits (by decide) rfl

theorem readEntry_of_readValue {d : Document} {cs tail : List Char} {key : Part Key cs.length}
    {fault : Fault} (hkey : readKey cs = .ok key) (hrest : key.rest = '=' :: tail)
    (hvalue : readValue (tail.dropWhile isSpace) = .error fault) :
    readEntry d cs = .error fault := by
  unfold readEntry
  rw [hkey]
  dsimp only
  split
  · next tail' htail =>
    obtain rfl : tail' = tail := (List.cons.inj (htail.symm.trans hrest)).2
    rw [hvalue]
  · next hother => exact absurd hrest (hother tail)

theorem readLines_of_readStatement {d : Document} {cs : List Char}
    {fault : Fault} (h : readStatement d (cs.dropWhile isSpace) = .error fault) :
    readLines d cs = .error fault := by
  rw [readLines, h]

end DocumentsLemmas

/-- An integer of any number of digits beyond the limit is too long. -/
theorem parse_tooLong {ds : List Char} (h : TooLong ds) :
    parse ('n' :: '=' :: ds) = .error (.integerTooLong ds.length) := by
  have hkey : readKey ('n' :: '=' :: ds) = .ok ⟨⟨[], "n"⟩, '=' :: ds, Nat.lt_succ_self _⟩ := by
    rw [readKey.eq_def]
    rfl
  have hvalue : readValue (ds.dropWhile isSpace) = .error (.integerTooLong ds.length) := by
    rw [dropWhile_isSpace_digits h.digits]
    exact readValue_tooLong h
  have hstatement : readStatement .empty ('n' :: '=' :: ds) = .error (.integerTooLong ds.length) :=
    weaken_eq_error.mpr (readEntry_of_readValue hkey rfl hvalue)
  rw [parse, readLines_of_readStatement hstatement]
  rfl

/-! ## 4. Documents that are read -/

variable {d filled : Document} {tail : List Char}

namespace DocumentsLemmas

variable {c : Char}

end DocumentsLemmas

section Lines

variable {read : Document} {rest : List Char}
  {hlength : rest.length < (cs.dropWhile isSpace).length + 1}

end Lines

end Abacus.Toml
