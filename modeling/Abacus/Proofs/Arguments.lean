import Abacus.CommandLine.Options

/-!
# Options in front of an operand

What stands in front of the first operand is read the same whether the operand follows or
not: only an option without its value would look further.

Results:
1. `readArguments_single`: an argument that does not begin with a hyphen is an operand.
2. `readArguments_append`: options with their values stay what they are when an operand and
   anything else comes behind them.
-/

namespace Abacus.CommandLine

variable {α : Type} {specs : List (OptionSpec α)} {mixed : Bool} {arg : String}
  {args : List String}

/-! ## 1. One argument -/

namespace ArgumentsLemmas

theorem not_hyphens_of_isOption (h : isOption arg = false) : arg ≠ "--" := by
  rintro rfl
  exact absurd h (by decide)

theorem readArguments_operand (h : isOption arg = false) :
    readArguments specs mixed (arg :: args) =
      if mixed then (readArguments specs mixed args).map (.withOperand arg)
      else some ⟨[], arg :: args⟩ := by
  rw [readArguments.eq_def]
  dsimp only
  rw [if_neg (not_hyphens_of_isOption h), h]
  rfl

theorem readArguments_hyphens :
    readArguments specs mixed ("--" :: args) = some ⟨[], args⟩ := by
  rw [readArguments.eq_def]
  exact if_pos rfl

theorem readArguments_alone (hne : arg ≠ "--") (harg : isOption arg = true)
    {options : List (Given α)}
    (h : readOption specs arg.toList args.head? = some (.alone options)) :
    readArguments specs mixed (arg :: args) =
      (readArguments specs mixed args).map (.withOptions options) := by
  rw [readArguments.eq_def]
  dsimp only
  rw [if_neg hne, if_pos harg, h]

theorem readArguments_withNext (hne : arg ≠ "--") (harg : isOption arg = true) {value : String}
    {options : List (Given α)}
    (h : readOption specs arg.toList (some value) = some (.withNext options)) :
    readArguments specs mixed (arg :: value :: args) =
      (readArguments specs mixed args).map (.withOptions options) := by
  rw [readArguments.eq_def]
  dsimp only [List.head?_cons]
  rw [if_neg hne, if_pos harg, h]

end ArgumentsLemmas

open ArgumentsLemmas

/-- What does not begin with a hyphen is no option. -/
theorem isOption_eq_false {arg : String} (h : arg.toList.head? ≠ some '-') :
    isOption arg = false := by
  unfold isOption
  split
  · next hlist =>
    rw [hlist] at h
    exact absurd rfl h
  · rfl

theorem readArguments_single (specs : List (OptionSpec α)) (h : arg.toList.head? ≠ some '-') :
    readArguments specs true [arg] = some ⟨[], [arg]⟩ := by
  rw [readArguments_operand (isOption_eq_false h), if_pos rfl]
  rfl

/-! ## 2. What comes next -/

namespace ArgumentsLemmas

theorem readShort_next {cs : List Char} {taken : Taken α} (h : readShort specs none cs = some taken)
    (next : Option String) : readShort specs next cs = some taken := by
  induction cs generalizing taken with
  | nil => exact h
  | cons c cs ih =>
    rw [readShort] at h ⊢
    split at h
    · cases h
    · next spec hspec =>
      split at h
      · next hvalue =>
        rw [if_pos hvalue]
        cases cs with
        | nil => cases h
        | cons d cs => exact h
      · next hvalue =>
        rw [if_neg hvalue]
        cases hrest : readShort specs none cs with
        | none =>
          rw [hrest] at h
          cases h
        | some more =>
          rw [hrest] at h
          rw [ih hrest]
          exact h

theorem readLong_next {cs : List Char} {taken : Taken α}
    (h : readLong specs cs none = some (some taken)) (next : Option String) :
    readLong specs cs next = some (some taken) := by
  obtain ⟨spec, hspec, hgiven⟩ := Option.map_eq_some_iff.mp h
  refine Option.map_eq_some_iff.mpr ⟨spec, hspec, ?_⟩
  -- Only an option that takes a value and was given none looks at what comes next.
  generalize cs.dropWhile (· != '=') = behind at hgiven ⊢
  cases behind with
  | nil =>
    cases htakes : spec.takesValue with
    | false =>
      rw [htakes] at hgiven
      exact hgiven
    | true =>
      rw [htakes] at hgiven
      cases hgiven
  | cons c value =>
    cases htakes : spec.takesValue with
    | false =>
      rw [htakes] at hgiven
      cases hgiven
    | true =>
      rw [htakes] at hgiven
      exact hgiven

/-- An option that makes sense at the end of the arguments means the same in front of more. -/
theorem readOption_next {cs : List Char} {taken : Taken α}
    (h : readOption specs cs none = some taken) (next : Option String) :
    readOption specs cs next = some taken := by
  unfold readOption at h ⊢
  cases hlong : readLong specs cs none with
  | some given =>
    rw [hlong] at h
    dsimp only at h
    rw [h] at hlong
    rw [readLong_next hlong]
  | none =>
    have hunknown : readLong specs cs next = none :=
      Option.map_eq_none_iff.mpr (Option.map_eq_none_iff.mp hlong)
    rw [hlong] at h
    rw [hunknown]
    dsimp only at h ⊢
    split at h
    · cases h
    · exact readShort_next h next
    · cases h

end ArgumentsLemmas

/-- Options that stand in front of an operand are read the same when nothing follows them. -/
theorem readArguments_append {front : List String} {a : Arguments α} {name : String}
    (h : readArguments specs false front = some a) (hall : a.operands = [])
    (hname : isOption name = false) (rest : List String) :
    readArguments specs false (front ++ name :: rest) = some ⟨a.options, name :: rest⟩ := by
  induction front using readArguments.induct specs false generalizing a with
  | case1 =>
    cases h
    exact readArguments_operand hname
  | case2 args =>
    rw [readArguments_hyphens] at h
    cases h
    dsimp only at hall
    rw [hall, List.singleton_append, readArguments_hyphens]
  | case3 arg hne harg args options hoption ih =>
    rw [readArguments_alone hne harg hoption] at h
    obtain ⟨later, hlater, rfl⟩ := Option.map_eq_some_iff.mp h
    have hagain : readOption specs arg.toList (args ++ name :: rest).head? =
        some (.alone options) := by
      cases args with
      | nil => exact readOption_next hoption _
      | cons value args => exact hoption
    rw [List.cons_append, readArguments_alone hne harg hagain, ih hlater hall]
    rfl
  | case4 arg hne harg value args options hoption ih =>
    rw [readArguments_withNext hne harg hoption] at h
    obtain ⟨later, hlater, rfl⟩ := Option.map_eq_some_iff.mp h
    rw [List.cons_append, List.cons_append, readArguments_withNext hne harg hoption,
      ih hlater hall]
    rfl
  | case5 arg hne harg options hoption =>
    rw [readArguments.eq_def] at h
    dsimp only at h
    rw [if_neg hne, if_pos harg, hoption] at h
    cases h
  | case6 arg args hne harg hoption =>
    rw [readArguments.eq_def] at h
    dsimp only at h
    rw [if_neg hne, if_pos harg, hoption] at h
    cases h
  | case7 arg args hne harg hmixed ih => cases hmixed
  | case8 arg args hne harg =>
    rw [readArguments_operand (Bool.eq_false_iff.mpr harg)] at h
    cases h
    cases hall

end Abacus.CommandLine
