import Abacus.Proofs.Documents
import Abacus.Proofs.Utf8
import Abacus.Settings.Load

/-!
# Loading settings

A settings file gives settings or is refused with a fault of its own, unless one of three
things ends the program: the path can name no file, the bytes are no text, or the text holds a
decimal integer that is too long to be read. Lists and tables of a document may nest to any
depth here: a reader whose stack is bounded is not the subject.

Results:
1. `Escapes.digits_le`, `escapes_tooLong`: how long an integer is that ends the program.
2. `load_ends`: in which of these ways loading ends, and when.
3. `ends_of_length_le`: a short text is loaded or refused.
-/

namespace Abacus.Settings

/-! ## 1. What ends the program -/

/-- Settings are loaded, or a fault of the settings file is reported. -/
def Ends (r : Except LoadFault Settings) : Prop :=
  (∃ s, r = .ok s ∧ 1 ≤ s.maxDepth) ∨ ∃ fault, r = .error (.config fault)

/-- What is found at a path ends the program with this fault, which is no fault of a settings
file that is reported. -/
inductive Escapes : FileState → LoadFault → Prop
  | unnameable : Escapes .unnameable .unnameable
  /-- The bytes encode no text. -/
  | notUtf8 {content : List UInt8} {fault : Text.Utf8.Fault}
      (undecodable : ∀ cs, content ≠ Text.Utf8.encode cs) :
      Escapes (.file content) (.notUtf8 fault)
  | integerTooLong {cs : List Char} {digits : Nat}
      (unread : Toml.parse (Text.unifyLineEnds cs) = .error (.integerTooLong digits)) :
      Escapes (.file (Text.Utf8.encode cs)) (.integerTooLong digits)

namespace LoadingLemmas

theorem load_encode (cs : List Char) : load (.file (Text.Utf8.encode cs)) = ofToml cs := by
  rw [load, Text.Utf8.decode_eq_ok.mpr rfl]

theorem ends_or_escapes_of_toml (cs : List Char) :
    Ends (ofToml cs) ∨ ∃ fault, Escapes (.file (Text.Utf8.encode cs)) fault ∧
      ofToml cs = .error fault := by
  unfold ofToml
  split
  · exact .inl (.inr ⟨_, rfl⟩)
  · next hparse => exact .inr ⟨_, .integerTooLong hparse, rfl⟩
  · split
    · exact .inl (.inr ⟨_, rfl⟩)
    · next entries _ =>
      cases ofEntries entries with
      | ok s => exact .inl (.inl ⟨s, rfl, s.one_le_maxDepth⟩)
      | error violations => exact .inl (.inr ⟨_, rfl⟩)

theorem ends_or_escapes (state : FileState) :
    Ends (load state) ∨ ∃ fault, Escapes state fault ∧ load state = .error fault := by
  cases state with
  | missing | denied | directory | notDirectory | nameTooLong => exact .inl (.inr ⟨_, rfl⟩)
  | unnameable => exact .inr ⟨_, .unnameable, rfl⟩
  | file content =>
    cases hdecode : Text.Utf8.decode content with
    | ok cs =>
      rw [Text.Utf8.decode_eq_ok.mp hdecode, load_encode]
      exact ends_or_escapes_of_toml cs
    | error fault =>
      refine .inr ⟨.notUtf8 fault, .notUtf8 fun cs hencode => ?_, ?_⟩
      · rw [Text.Utf8.decode_eq_ok.mpr hencode] at hdecode
        cases hdecode
      · rw [load, hdecode]

theorem ends_error {fault : LoadFault} (h : Ends (.error fault)) :
    ∃ f, fault = .config f := by
  obtain ⟨s, hok, -⟩ | ⟨f, herror⟩ := h
  · cases hok
  · exact ⟨f, Except.error.inj herror⟩

theorem not_ends_of_escapes {state : FileState} {fault : LoadFault} (h : Escapes state fault) :
    ¬ Ends (load state) := by
  intro hends
  cases h with
  | unnameable =>
    obtain ⟨f, hf⟩ := ends_error hends
    cases hf
  | @notUtf8 content fault undecodable =>
    cases hdecode : Text.Utf8.decode content with
    | ok cs => exact undecodable cs (Text.Utf8.decode_eq_ok.mp hdecode)
    | error fault =>
      rw [load, hdecode] at hends
      obtain ⟨f, hf⟩ := ends_error hends
      cases hf
  | integerTooLong unread =>
    rw [load_encode, ofToml, unread] at hends
    obtain ⟨f, hf⟩ := ends_error hends
    cases hf

end LoadingLemmas

open LoadingLemmas

/-- An integer that ends the program has more digits than can be read, and no more than the
file has bytes. -/
theorem Escapes.digits_le {content : List UInt8} {digits : Nat}
    (h : Escapes (.file content) (.integerTooLong digits)) :
    Numeral.maxLength < digits ∧ digits ≤ content.length := by
  cases h with
  | @integerTooLong cs _ unread =>
    obtain ⟨hlimit, hlength⟩ := Toml.parse_fault unread
    exact ⟨hlimit, Nat.le_trans hlength (Nat.le_trans (Text.length_unifyLineEnds_le cs)
      (Text.Utf8.length_le_length_encode cs))⟩

/-- Every number of digits beyond the limit is met in some settings file. -/
theorem escapes_tooLong {ds : List Char} (h : Toml.TooLong ds) :
    Escapes (.file (Text.Utf8.encode ('n' :: '=' :: ds))) (.integerTooLong ds.length) := by
  have hreturn : '\r' ∉ 'n' :: '=' :: ds := by
    simp only [List.mem_cons, not_or]
    exact ⟨by decide, by decide, fun hmem => absurd (h.digits _ hmem) (by decide)⟩
  refine .integerTooLong ?_
  rw [Text.unifyLineEnds_of_not_mem hreturn]
  exact Toml.parse_tooLong h

/-! ## 2. How loading ends -/

/-- Loading ends with settings, whose nesting is at least one, or with a fault of the settings
file, except where something else ends it, and then with that. -/
theorem load_ends (state : FileState) :
    (Ends (load state) ∧ ∀ fault, ¬ Escapes state fault) ∨
      ∃ fault, Escapes state fault ∧ load state = .error fault := by
  obtain hends | hescapes := ends_or_escapes state
  · exact .inl ⟨hends, fun fault h => not_ends_of_escapes h hends⟩
  · exact .inr hescapes

/-- A lone byte that begins no character is not reported. -/
theorem not_ends_lone_byte : ¬ Ends (load (.file [0xFF])) := by
  intro h
  obtain ⟨f, hf⟩ := ends_error h
  cases hf

/-- A text no longer than the longest integer that can be read gives settings or is reported,
as long as its nesting, too, is within the reach of its reader. -/
theorem ends_of_length_le {cs : List Char} (h : (Text.Utf8.encode cs).length ≤ Numeral.maxLength) :
    Ends (load (.file (Text.Utf8.encode cs))) := by
  obtain hends | ⟨fault, hescapes, -⟩ := ends_or_escapes (.file (Text.Utf8.encode cs))
  · exact hends
  · generalize hcontent : Text.Utf8.encode cs = content at hescapes h
    cases hescapes with
    | notUtf8 undecodable => exact absurd hcontent.symm (undecodable cs)
    | integerTooLong unread =>
      have hdigits := (Escapes.integerTooLong unread).digits_le
      exact absurd (Nat.lt_of_lt_of_le hdigits.1 hdigits.2) (Nat.not_lt.mpr h)

end Abacus.Settings
