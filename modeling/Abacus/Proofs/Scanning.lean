import Abacus.Token.Scan

/-!
# What a line is scanned into

The scanner takes a line apart from left to right and drops what it has read.
Here the line stays whole and is described by position: which token starts where,
and what is in the way where. The scanner is compared with that description.

Results:
1. `exceedsMax_significant`: counting the digits of a run without its zeros in
   front, before valuing it, decides the same as comparing the values.
2. `scanFrom_accounts`: from any position on, the scanner finds the tokens that
   start there, or the first thing that is in the way.
3. `scan_exact`: a line is scanned exactly when nothing is in the way. The tokens
   are those of the line in order of position, and a fault names the leftmost
   thing that is in the way.
-/

namespace Abacus.Token

/-! ## 1. Tokens and offences by position -/

/-- The characters that are tokens of their own. -/
def symbols : List (Char × Token) :=
  [('+', .operator .add), ('-', .operator .sub), ('*', .operator .mul), ('/', .operator .div),
   ('(', .opening), (')', .closing)]

/-- A character may stand in a line: it is a blank, a digit, or a symbol. -/
def Allowed (c : Char) : Prop :=
  Text.isBlank c = true ∨ Numeral.isDigit c = true ∨ ∃ t, (c, t) ∈ symbols

/-- A longest run of digits of a text, behind its first `i` characters. -/
structure IsRun (cs : List Char) (i : Nat) (run : List Char) : Prop where
  nonempty : run ≠ []
  digits : ∀ c ∈ run, Numeral.isDigit c = true
  here : run <+: cs.drop i
  /-- No digit stands in front of the run. -/
  first : ∀ j c, i = j + 1 → cs[j]? = some c → Numeral.isDigit c = false
  /-- No digit stands behind the run. -/
  last : ∀ c, cs[i + run.length]? = some c → Numeral.isDigit c = false

/-- A token of a text starts behind its first `i` characters: a symbol, or the
number that a longest run of digits denotes. -/
inductive TokenAt (cs : List Char) (i : Nat) : Token → Prop
  | symbol {c : Char} {t : Token} : cs[i]? = some c → (c, t) ∈ symbols → TokenAt cs i t
  | number {run : List Char} : IsRun cs i run → TokenAt cs i (.number (Numeral.value run))

/-- Something behind the first `i` characters of a text keeps it from being
scanned: a character that may not stand there, or the start of a longest run of
digits that denotes too large a number. -/
inductive OffenceAt (cs : List Char) (i : Nat) : ScanCause → Prop
  | invalid {c : Char} : cs[i]? = some c → ¬ Allowed c → OffenceAt cs i (.invalid c)
  | tooLarge {run : List Char} :
      IsRun cs i run → maxValue < Numeral.value run → OffenceAt cs i .tooLarge

/-- What a message calls an offence. -/
def ScanCause.wording : ScanCause → String
  | .invalid c => "Invalid token " ++ Text.quote (String.singleton c)
  | .tooLarge => "Number too large"

namespace ScanningLemmas

theorem ofChar?_eq_some {c : Char} {t : Token} : ofChar? c = some t ↔ (c, t) ∈ symbols := by
  constructor
  · intro h
    unfold ofChar? at h
    split at h
    · next hc =>
      cases h
      simp [symbols, hc]
    · split at h
      · next hc =>
        cases h
        simp [symbols, hc]
      · obtain ⟨op, hop, rfl⟩ := Option.map_eq_some_iff.mp h
        obtain rfl := Operator.ofSymbol?_eq_some.mp hop
        cases op <;> simp [symbols, Operator.symbol]
  · intro h
    have hall : ∀ p ∈ symbols, ofChar? p.1 = some p.2 := by decide
    exact hall (c, t) h

theorem ofChar?_eq_none {c : Char} (hblank : Text.isBlank c = false)
    (hdigit : Numeral.isDigit c = false) : ofChar? c = none ↔ ¬ Allowed c := by
  unfold Allowed
  simp only [hblank, hdigit, Bool.false_eq_true, false_or, not_exists, ← ofChar?_eq_some]
  exact Option.eq_none_iff_forall_ne_some

/-- A symbol is neither a blank nor a digit. -/
theorem class_of_symbol {c : Char} {t : Token} (h : (c, t) ∈ symbols) :
    Text.isBlank c = false ∧ Numeral.isDigit c = false := by
  have hall : ∀ p ∈ symbols, Text.isBlank p.1 = false ∧ Numeral.isDigit p.1 = false := by decide
  exact hall (c, t) h

/-! ### Runs -/

theorem isRun_iff {cs run : List Char} {i : Nat} :
    IsRun cs i run ↔
      run ≠ [] ∧ run = (cs.drop i).takeWhile Numeral.isDigit ∧
        ∀ j c, i = j + 1 → cs[j]? = some c → Numeral.isDigit c = false := by
  constructor
  · intro h
    refine ⟨h.nonempty, ?_, h.first⟩
    obtain ⟨rest, hrest⟩ := h.here
    have hbehind : rest.takeWhile Numeral.isDigit = [] := by
      cases rest with
      | nil => rfl
      | cons c rest =>
        have hc : cs[i + run.length]? = some c := by
          rw [← List.getElem?_drop, ← hrest]
          simp
        simp [h.last c hc]
    rw [← hrest, List.takeWhile_append_of_pos h.digits, hbehind, List.append_nil]
  · rintro ⟨hne, hrun, hfirst⟩
    have hsplit := List.takeWhile_append_dropWhile (p := Numeral.isDigit) (l := cs.drop i)
    rw [← hrun] at hsplit
    refine ⟨hne, ?_, ⟨_, hsplit⟩, hfirst, fun c hc => ?_⟩
    · rw [hrun]
      exact List.all_eq_true.mp List.all_takeWhile
    · have hhead := List.head?_dropWhile_not Numeral.isDigit (cs.drop i)
      rw [← List.getElem?_drop, ← hsplit, List.getElem?_append_right (Nat.le_refl _),
        Nat.sub_self, ← List.head?_eq_getElem?] at hc
      rw [hc] at hhead
      exact hhead

theorem isRun_unique {cs run run' : List Char} {i : Nat} (h : IsRun cs i run)
    (h' : IsRun cs i run') : run' = run :=
  (isRun_iff.mp h').2.1.trans (isRun_iff.mp h).2.1.symm

/-- All characters of a run are digits of the text, at the positions of the run. -/
theorem digit_of_isRun {cs run : List Char} {i k : Nat} (h : IsRun cs i run) (hik : i ≤ k)
    (hk : k < i + run.length) : ∃ c, cs[k]? = some c ∧ Numeral.isDigit c = true := by
  obtain ⟨rest, hrest⟩ := h.here
  obtain ⟨m, rfl⟩ := Nat.exists_eq_add_of_le hik
  have hm : m < run.length := by omega
  refine ⟨run[m], ?_, h.digits _ (List.getElem_mem hm)⟩
  rw [← List.getElem?_drop, ← hrest, List.getElem?_append_left hm, List.getElem?_eq_getElem hm]

theorem not_isRun {cs run : List Char} {i : Nat} {c : Char} (hc : cs[i]? = some c)
    (hdigit : Numeral.isDigit c = false) : ¬ IsRun cs i run := by
  intro h
  have hpos := List.length_pos_iff.mpr h.nonempty
  obtain ⟨d, hd, hdd⟩ := digit_of_isRun h (Nat.le_refl i) (by omega)
  obtain rfl : c = d := Option.some.inj (hc.symm.trans hd)
  rw [hdigit] at hdd
  cases hdd

/-- At the start of a run there is one token, and at most one offence. -/
theorem tokenAt_of_isRun {cs run : List Char} {i : Nat} {t : Token} (h : IsRun cs i run) :
    TokenAt cs i t ↔ t = .number (Numeral.value run) := by
  constructor
  · rintro (⟨hc, hmem⟩ | hrun)
    · exact absurd h (not_isRun hc (class_of_symbol hmem).2)
    · rw [isRun_unique h hrun]
  · rintro rfl
    exact .number h

theorem offenceAt_of_isRun {cs run : List Char} {i : Nat} {cause : ScanCause}
    (h : IsRun cs i run) : OffenceAt cs i cause → maxValue < Numeral.value run := by
  rintro (⟨hc, hnot⟩ | ⟨hrun, hlarge⟩)
  · refine absurd h (not_isRun hc (Bool.eq_false_iff.mpr fun hdigit => ?_))
    exact hnot (.inr (.inl hdigit))
  · rwa [isRun_unique h hrun] at hlarge

/-- At a symbol there is one token and no offence. -/
theorem tokenAt_of_symbol {cs : List Char} {i : Nat} {c : Char} {t u : Token}
    (hc : cs[i]? = some c) (hmem : (c, t) ∈ symbols) : TokenAt cs i u ↔ u = t := by
  constructor
  · rintro (⟨hc', hmem'⟩ | hrun)
    · obtain rfl := Option.some.inj (hc.symm.trans hc')
      exact Option.some.inj ((ofChar?_eq_some.mpr hmem').symm.trans (ofChar?_eq_some.mpr hmem))
    · exact absurd hrun (not_isRun hc (class_of_symbol hmem).2)
  · rintro rfl
    exact .symbol hc hmem

/-- Nothing is in the way at a character that may stand there and starts no run. -/
theorem not_offenceAt {cs : List Char} {i : Nat} {c : Char} {cause : ScanCause}
    (hc : cs[i]? = some c) (hallowed : Allowed c) (hrun : ∀ run, ¬ IsRun cs i run) :
    ¬ OffenceAt cs i cause := by
  rintro (⟨hc', hnot⟩ | ⟨hrun', -⟩)
  · obtain rfl := Option.some.inj (hc.symm.trans hc')
    exact hnot hallowed
  · exact hrun _ hrun'

theorem not_offenceAt_of_symbol {cs : List Char} {i : Nat} {c : Char} {t : Token}
    {cause : ScanCause} (hc : cs[i]? = some c) (hmem : (c, t) ∈ symbols) :
    ¬ OffenceAt cs i cause :=
  not_offenceAt hc (.inr (.inr ⟨t, hmem⟩)) fun _ => not_isRun hc (class_of_symbol hmem).2

/-! ### Positions at which nothing starts -/

/-- Behind the first `i` characters of a text no token starts, and nothing is in
the way. -/
def Quiet (cs : List Char) (i : Nat) : Prop :=
  (∀ t, ¬ TokenAt cs i t) ∧ ∀ cause, ¬ OffenceAt cs i cause

theorem not_isDigit_of_isBlank {c : Char} (h : Text.isBlank c = true) :
    Numeral.isDigit c = false := by
  rw [← Bool.not_eq_true, Numeral.isDigit_iff]
  simp only [Text.isBlank, Text.isWhiteSpace, Bool.or_eq_true, Bool.and_eq_true, beq_iff_eq,
    decide_eq_true_eq] at h
  omega

theorem quiet_of_not_symbol {cs : List Char} {i : Nat} {c : Char} (hc : cs[i]? = some c)
    (hallowed : Allowed c) (hsymbol : ∀ t, (c, t) ∉ symbols) (hrun : ∀ run, ¬ IsRun cs i run) :
    Quiet cs i := by
  refine ⟨?_, fun cause => not_offenceAt hc hallowed hrun⟩
  rintro t (⟨hc', hmem⟩ | hrun')
  · obtain rfl := Option.some.inj (hc.symm.trans hc')
    exact hsymbol t hmem
  · exact hrun _ hrun'

theorem quiet_of_isBlank {cs : List Char} {i : Nat} {c : Char} (hc : cs[i]? = some c)
    (hblank : Text.isBlank c = true) : Quiet cs i := by
  refine quiet_of_not_symbol hc (.inl hblank) (fun t hmem => ?_) fun run =>
    not_isRun hc (not_isDigit_of_isBlank hblank)
  rw [(class_of_symbol hmem).1] at hblank
  cases hblank

theorem quiet_inside {cs run : List Char} {i k : Nat} (h : IsRun cs i run) (hik : i < k)
    (hk : k < i + run.length) : Quiet cs k := by
  obtain ⟨j, rfl⟩ : ∃ j, k = j + 1 := ⟨k - 1, by omega⟩
  obtain ⟨c, hc, hcd⟩ := digit_of_isRun h (Nat.le_of_lt hik) hk
  refine quiet_of_not_symbol hc (.inr (.inl hcd)) (fun t hmem => ?_) fun run' h' => ?_
  · rw [(class_of_symbol hmem).2] at hcd
    cases hcd
  · -- The digit in front belongs to the same run, so no run starts here.
    obtain ⟨d, hd, hdd⟩ := digit_of_isRun (k := j) h (by omega) (by omega)
    rw [h'.first j d rfl hd] at hdd
    cases hdd

end ScanningLemmas

open ScanningLemmas

/-! ## 2. Accounting for a line -/

/-- A result accounts for a text behind its first `i` characters: it lists all
tokens that start there, in order of position, and nothing is in the way; or it
names the leftmost thing that is in the way there. -/
def Accounts (cs : List Char) (i : Nat) : Except ScanFault (List Token) → Prop
  | .ok ts =>
    (∃ placed : List (Nat × Token), ts = placed.map (·.2) ∧
      placed.Pairwise (fun p q => p.1 < q.1) ∧ ∀ j t, (j, t) ∈ placed ↔ i ≤ j ∧ TokenAt cs j t) ∧
    ∀ j cause, i ≤ j → ¬ OffenceAt cs j cause
  | .error fault =>
    ∃ j, i ≤ j ∧ fault.index = j + 1 ∧ OffenceAt cs j fault.cause ∧
      ∀ k cause, i ≤ k → k < j → ¬ OffenceAt cs k cause

namespace ScanningLemmas

theorem accounts_end {cs : List Char} {i : Nat} (h : cs.length ≤ i) : Accounts cs i (.ok []) := by
  have hnone : ∀ j, i ≤ j → cs[j]? = none := fun j hij =>
    List.getElem?_eq_none (Nat.le_trans h hij)
  have hrun : ∀ j run, i ≤ j → ¬ IsRun cs j run := by
    intro j run hij hrun
    have hpos := List.length_pos_iff.mpr hrun.nonempty
    obtain ⟨c, hc, -⟩ := digit_of_isRun hrun (Nat.le_refl j) (by omega)
    rw [hnone j hij] at hc
    cases hc
  refine ⟨⟨[], rfl, List.Pairwise.nil, fun j t => ⟨nofun, ?_⟩⟩, ?_⟩
  · rintro ⟨hij, ⟨hc, -⟩ | h'⟩
    · rw [hnone j hij] at hc
      cases hc
    · exact absurd h' (hrun j _ hij)
  · rintro j cause hij (⟨hc, -⟩ | ⟨h', -⟩)
    · rw [hnone j hij] at hc
      cases hc
    · exact hrun j _ hij h'

theorem accounts_skip {cs : List Char} {i n : Nat} {r : Except ScanFault (List Token)}
    (hin : i ≤ n) (hquiet : ∀ k, i ≤ k → k < n → Quiet cs k) (h : Accounts cs n r) :
    Accounts cs i r := by
  cases r with
  | ok ts =>
    obtain ⟨⟨placed, hts, hsorted, hplaced⟩, hfree⟩ := h
    refine ⟨⟨placed, hts, hsorted, fun j t => ?_⟩, fun j cause hij hoff => ?_⟩
    · rw [hplaced]
      refine ⟨fun ⟨hnj, ht⟩ => ⟨Nat.le_trans hin hnj, ht⟩, fun ⟨hij, ht⟩ => ⟨?_, ht⟩⟩
      exact Nat.le_of_not_lt fun hjn => (hquiet j hij hjn).1 t ht
    · rcases Nat.lt_or_ge j n with hjn | hnj
      · exact (hquiet j hij hjn).2 cause hoff
      · exact hfree j cause hnj hoff
  | error fault =>
    obtain ⟨j, hnj, hindex, hoff, hfirst⟩ := h
    refine ⟨j, Nat.le_trans hin hnj, hindex, hoff, fun k cause hik hkj hoff' => ?_⟩
    rcases Nat.lt_or_ge k n with hkn | hnk
    · exact (hquiet k hik hkn).2 cause hoff'
    · exact hfirst k cause hnk hkj hoff'

theorem accounts_token {cs : List Char} {i : Nat} {t : Token}
    {r : Except ScanFault (List Token)} (ht : ∀ t', TokenAt cs i t' ↔ t' = t)
    (hfree : ∀ cause, ¬ OffenceAt cs i cause) (h : Accounts cs (i + 1) r) :
    Accounts cs i ((t :: ·) <$> r) := by
  cases r with
  | ok ts =>
    obtain ⟨⟨placed, hts, hsorted, hplaced⟩, hlater⟩ := h
    refine ⟨⟨(i, t) :: placed, by rw [hts]; rfl, ?_, fun j u => ?_⟩, fun j cause hij hoff => ?_⟩
    · refine List.Pairwise.cons (fun p hp => ?_) hsorted
      exact ((hplaced p.1 p.2).mp hp).1
    · rw [List.mem_cons, hplaced, Prod.mk.injEq]
      constructor
      · rintro (⟨rfl, rfl⟩ | ⟨hij, hu⟩)
        · exact ⟨Nat.le_refl _, (ht _).mpr rfl⟩
        · exact ⟨Nat.le_of_succ_le hij, hu⟩
      · rintro ⟨hij, hu⟩
        rcases Nat.eq_or_lt_of_le hij with rfl | hij
        · exact .inl ⟨rfl, (ht u).mp hu⟩
        · exact .inr ⟨hij, hu⟩
    · rcases Nat.eq_or_lt_of_le hij with rfl | hij
      · exact hfree cause hoff
      · exact hlater j cause hij hoff
  | error fault =>
    obtain ⟨j, hij, hindex, hoff, hfirst⟩ := h
    refine ⟨j, Nat.le_of_succ_le hij, hindex, hoff, fun k cause hik hkj hoff' => ?_⟩
    rcases Nat.eq_or_lt_of_le hik with rfl | hik
    · exact hfree cause hoff'
    · exact hfirst k cause hik hkj hoff'

theorem accounts_offence {cs : List Char} {i : Nat} {cause : ScanCause}
    (h : OffenceAt cs i cause) : Accounts cs i (.error ⟨cause, i + 1⟩) :=
  ⟨i, Nat.le_refl i, rfl, h, fun _ _ hik hki => absurd hik (Nat.not_le.mpr hki)⟩

end ScanningLemmas

/-! ## 3. The scanner accounts for every line -/

namespace ScanningLemmas

theorem maxDigits_eq : maxDigits = 20 := by
  decide +kernel

/-- Digits of which the first is no zero denote at least a power of ten. -/
theorem pow_le_value {d : Char} {ds : List Char} (hd : Numeral.isDigit d = true) (hzero : d ≠ '0') :
    Nat.pow 10 ds.length ≤ Numeral.value (d :: ds) := by
  have hne : d.toNat ≠ '0'.toNat := fun h => hzero (Char.toNat_inj.mp h)
  have hpos : 1 ≤ Numeral.digitValue d := by
    have hle : 48 ≤ d.toNat := (Numeral.isDigit_iff.mp hd).1
    have hzero' : '0'.toNat = 48 := rfl
    rw [Numeral.digitValue]
    omega
  calc Nat.pow 10 ds.length ≤ Numeral.digitValue d * Nat.pow 10 ds.length :=
        Nat.le_mul_of_pos_left _ hpos
    _ ≤ Numeral.value (d :: ds) := by
      rw [Numeral.value_cons]
      exact Nat.le_add_right _ _

end ScanningLemmas

/-- Without its zeros in front a run of digits is too long, or its value too
large, exactly when the run as it stands denotes too large a number. -/
theorem exceedsMax_significant {run : List Char} (h : ∀ c ∈ run, Numeral.isDigit c = true) :
    exceedsMax (Numeral.significant run) = true ↔ maxValue < Numeral.value run := by
  rw [exceedsMax, Bool.or_eq_true, decide_eq_true_eq, decide_eq_true_eq, Numeral.value_significant,
    maxDigits_eq]
  -- It remains that too many digits denote too large a number.
  refine or_iff_right_of_imp fun hlong => ?_
  rw [← Numeral.value_significant]
  rw [Numeral.significant] at hlong ⊢
  cases hrest : run.dropWhile (· == '0') with
  | nil =>
    rw [hrest] at hlong
    exact absurd hlong (by decide)
  | cons d ds =>
    rw [hrest] at hlong
    have hmem : d ∈ run := (List.dropWhile_suffix _).subset (hrest ▸ List.mem_cons_self)
    have hzero : d ≠ '0' := by
      have hhead := List.head?_dropWhile_not (· == '0') run
      rw [hrest] at hhead
      simpa using hhead
    calc maxValue < 10 ^ 20 := by decide
      _ ≤ 10 ^ ds.length := Nat.pow_le_pow_right (by decide) (Nat.le_of_lt_succ hlong)
      _ ≤ Numeral.value (d :: ds) := pow_le_value (h d hmem) hzero

/-- From any position on that does not cut a run of digits, the scanner accounts
for the text. -/
theorem scanFrom_accounts (cs : List Char) (i : Nat)
    (hcut : ∀ j c d, i = j + 1 → cs[j]? = some c → cs[i]? = some d →
      Numeral.isDigit c = true → Numeral.isDigit d = false) :
    Accounts cs i (scanFrom (i + 1) (cs.drop i)) := by
  cases hdrop : cs.drop i with
  | nil =>
    rw [scanFrom.eq_def]
    exact accounts_end (List.drop_eq_nil_iff.mp hdrop)
  | cons c rest =>
    have hc : cs[i]? = some c := by rw [← List.head?_drop, hdrop]; rfl
    have hrest : cs.drop (i + 1) = rest := by rw [← List.tail_drop, hdrop]; rfl
    have hlt : i < cs.length := (List.getElem?_eq_some_iff.mp hc).1
    rw [scanFrom.eq_def]
    dsimp only
    by_cases hdigit : Numeral.isDigit c = true
    · -- A whole run is read at once: the positions inside it hold nothing.
      have hrun : IsRun cs i (c :: rest.takeWhile Numeral.isDigit) := by
        refine isRun_iff.mpr ⟨List.cons_ne_nil _ _, ?_, fun j d hij hd => ?_⟩
        · rw [hdrop, List.takeWhile_cons_of_pos hdigit]
        · refine Bool.eq_false_iff.mpr fun hdd => ?_
          rw [hcut j d c hij hd hc hdd] at hdigit
          cases hdigit
      have hbehind : cs.drop (i + (c :: rest.takeWhile Numeral.isDigit).length) =
          rest.dropWhile Numeral.isDigit := by
        have hsplit : (c :: rest.takeWhile Numeral.isDigit) ++ rest.dropWhile Numeral.isDigit =
            cs.drop i := by
          rw [hdrop, List.cons_append, List.takeWhile_append_dropWhile]
        rw [← List.drop_drop, ← hsplit, List.drop_left]
      have hblank : ¬ Text.isBlank c = true := fun hb => by
        rw [not_isDigit_of_isBlank hb] at hdigit
        cases hdigit
      rw [if_neg hblank, if_pos hdigit]
      -- From here on only that it is a run matters, not how it was taken.
      generalize c :: rest.takeWhile Numeral.isDigit = run at hrun hbehind ⊢
      have hpos := List.length_pos_iff.mpr hrun.nonempty
      have hexceeds := exceedsMax_significant hrun.digits
      split
      · next hlarge => exact accounts_offence (.tooLarge hrun (hexceeds.mp hlarge))
      · next hsmall =>
        have hlater := scanFrom_accounts cs (i + run.length) fun _ _ d _ _ hd _ => hrun.last d hd
        rw [hbehind, Nat.add_right_comm] at hlater
        rw [Numeral.value_significant]
        refine accounts_token (fun u => tokenAt_of_isRun hrun)
          (fun cause hoff => hsmall (hexceeds.mpr (offenceAt_of_isRun hrun hoff))) ?_
        exact accounts_skip (Nat.add_le_add_left hpos i)
          (fun k hik hki => quiet_inside hrun hik hki) hlater
    · -- Behind any other character the next position cuts no run.
      have hnext : ∀ j c' d, i + 1 = j + 1 → cs[j]? = some c' → cs[i + 1]? = some d →
          Numeral.isDigit c' = true → Numeral.isDigit d = false := by
        intro j c' d hij hc' _ hdd
        obtain rfl := Nat.succ.inj hij
        obtain rfl := Option.some.inj (hc.symm.trans hc')
        exact absurd hdd hdigit
      have hlater := scanFrom_accounts cs (i + 1) hnext
      rw [hrest] at hlater
      split
      · next hblank =>
        refine accounts_skip (Nat.le_succ i) (fun k hik hki => ?_) hlater
        obtain rfl : i = k := Nat.le_antisymm hik (Nat.le_of_lt_succ hki)
        exact quiet_of_isBlank hc hblank
      · next hblank =>
        split
        · next t ht =>
          have hmem := ofChar?_eq_some.mp ht
          exact accounts_token (fun u => tokenAt_of_symbol hc hmem)
            (fun cause => not_offenceAt_of_symbol hc hmem) hlater
        · next ht =>
          have hnot := (ofChar?_eq_none (Bool.eq_false_iff.mpr hblank)
            (Bool.eq_false_iff.mpr hdigit)).mp ht
          exact accounts_offence (.invalid hc hnot)
termination_by cs.length - i

namespace ScanningLemmas

theorem scan_accounts (line : String) : Accounts line.toList 0 (scan line) :=
  -- No position stands before the first, so no run is cut there.
  scanFrom_accounts line.toList 0 fun _ _ _ h => absurd h (Nat.succ_ne_zero _).symm

theorem no_offenceAt_iff {cs : List Char} :
    (∀ i cause, ¬ OffenceAt cs i cause) ↔
      (∀ c ∈ cs, Allowed c) ∧ ∀ i run, IsRun cs i run → Numeral.value run ≤ maxValue := by
  constructor
  · intro h
    refine ⟨fun c hc => ?_, fun i run hrun => ?_⟩
    · obtain ⟨i, hi⟩ := List.mem_iff_getElem?.mp hc
      exact Classical.byContradiction fun hnot => h i _ (.invalid hi hnot)
    · exact Nat.le_of_not_lt fun hlarge => h i _ (.tooLarge hrun hlarge)
  · rintro ⟨hallowed, hsmall⟩ i cause (⟨hc, hnot⟩ | ⟨hrun, hlarge⟩)
    · exact hnot (hallowed _ (List.mem_of_getElem? hc))
    · exact Nat.not_lt.mpr (hsmall i _ hrun) hlarge

theorem message_eq (fault : ScanFault) :
    fault.message = fault.cause.wording ++ " at index: " ++ Numeral.ofNat fault.index := by
  obtain ⟨cause, index⟩ := fault
  cases cause with
  | invalid c => rfl
  | tooLarge =>
    have hjoin : "Number too large" ++ " at index: " = "Number too large at index: " := rfl
    exact congrArg (· ++ Numeral.ofNat index) hjoin.symm

end ScanningLemmas

/-- A line is scanned exactly when all its characters may stand there and no
longest run of digits denotes too large a number. The tokens are then those that
start in the line, in order of position. Otherwise the fault names the leftmost
offence and the position, from one, at which it stands. -/
theorem scan_exact (line : String) :
    ((∃ ts, scan line = .ok ts) ↔
      (∀ c ∈ line.toList, Allowed c) ∧
        ∀ i run, IsRun line.toList i run → Numeral.value run ≤ maxValue) ∧
    (∀ ts, scan line = .ok ts →
      ∃ placed : List (Nat × Token), ts = placed.map (·.2) ∧
        placed.Pairwise (fun p q => p.1 < q.1) ∧
        ∀ i t, (i, t) ∈ placed ↔ TokenAt line.toList i t) ∧
    ∀ fault, scan line = .error fault →
      ∃ i, fault.index = i + 1 ∧ OffenceAt line.toList i fault.cause ∧
        (∀ j cause, j < i → ¬ OffenceAt line.toList j cause) ∧
        fault.message = fault.cause.wording ++ " at index: " ++ Numeral.ofNat (i + 1) := by
  have haccounts := scan_accounts line
  rw [← no_offenceAt_iff]
  cases hscan : scan line with
  | ok ts =>
    rw [hscan] at haccounts
    obtain ⟨⟨placed, hts, hsorted, hplaced⟩, hfree⟩ := haccounts
    refine ⟨⟨fun _ i cause => hfree i cause (Nat.zero_le i), fun _ => ⟨ts, rfl⟩⟩, ?_, nofun⟩
    rintro _ ⟨rfl⟩
    refine ⟨placed, hts, hsorted, fun i t => ?_⟩
    rw [hplaced]
    exact and_iff_right (Nat.zero_le i)
  | error fault =>
    rw [hscan] at haccounts
    obtain ⟨i, -, hindex, hoff, hfirst⟩ := haccounts
    refine ⟨⟨nofun, fun hfree => absurd hoff (hfree i _)⟩, nofun, ?_⟩
    rintro _ ⟨rfl⟩
    refine ⟨i, hindex, hoff, fun j cause hji => hfirst j cause (Nat.zero_le j) hji, ?_⟩
    rw [message_eq, hindex]

end Abacus.Token
