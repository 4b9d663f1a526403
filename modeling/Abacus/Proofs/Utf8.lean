import Abacus.Text.Utf8

/-!
# Bytes and characters

The decoder is held to the encoding of characters in the core library: what it accepts are the
texts so encoded, each read as itself, and nothing else.

Results:
1. `decodeFrom_inside`: inside a character the decoder takes the continuation bytes of a code
   point that can begin with its lead byte, and only those.
2. `utf8EncodeChar_of_lead?`, `lead?_of_utf8EncodeChar`: the lead bytes, and what can begin with
   them, are those of the encoding.
3. `decode_eq_ok`: bytes are decoded into characters exactly when they encode them.
-/

namespace Abacus.Text.Utf8

/-- Characters in UTF-8. -/
def encode (cs : List Char) : List UInt8 := cs.flatMap String.utf8EncodeChar

theorem encode_cons (c : Char) (cs : List Char) :
    encode (c :: cs) = String.utf8EncodeChar c ++ encode cs :=
  List.flatMap_cons

theorem length_le_length_encode (cs : List Char) : cs.length ≤ (encode cs).length := by
  induction cs with
  | nil => exact Nat.le_refl _
  | cons c cs ih =>
    have hpos := c.utf8Size_pos
    rw [encode_cons, List.length_append, String.length_utf8EncodeChar, List.length_cons]
    omega

/-! ## 1. Inside a character -/

/-- A code point without its last `count` groups of six bits. -/
def leading (v : Nat) : (count : Nat) → Nat
  | 0 => v
  | count + 1 => leading v count / 0x40

theorem leading_two (v : Nat) : leading v 2 = v / 0x1000 := Nat.div_div_eq_div_mul v _ _

theorem leading_three (v : Nat) : leading v 3 = v / 0x40000 := by
  rw [leading, leading_two, Nat.div_div_eq_div_mul]

/-- The last `count` bytes of a code point, six bits in each. -/
def continuation (v : Nat) : (count : Nat) → List UInt8
  | 0 => []
  | count + 1 => UInt8.ofNat (leading v count % 0x40 + 0x80) :: continuation v count

/-- A code point can begin with a lead byte that makes this promise: the bits of the lead byte
stand in front, and the first continuation byte is in the range. -/
structure Lead.Begins (lead : Lead) (v : Nat) : Prop where
  bits : leading v lead.owed = lead.bits
  low : lead.low.toNat ≤ leading v (lead.owed - 1) % 0x40 + 0x80
  high : leading v (lead.owed - 1) % 0x40 + 0x80 ≤ lead.high.toNat

/-- A promise of at least one continuation byte. -/
structure Lead.Sound (lead : Lead) : Prop where
  owed : 1 ≤ lead.owed
  low : 0x80 ≤ lead.low.toNat
  high : lead.high.toNat ≤ 0xBF

/-- What the lead byte promises once a continuation byte is taken. -/
def Lead.next (lead : Lead) (b : UInt8) : Lead :=
  ⟨lead.owed - 1, 0x80, 0xBF, lead.bits * 0x40 + (b.toNat - 0x80)⟩

namespace Utf8Lemmas

variable {lead : Lead} {v position start : Nat} {taken bs : List UInt8} {b : UInt8}

theorem decodeFrom_last (hb : lead.low ≤ b ∧ b ≤ lead.high) (howed : lead.owed ≤ 1) :
    decodeFrom position (.inside start taken lead) (b :: bs) =
      (Char.ofNat (lead.next b).bits :: (decodeFrom (position + 1) .between bs).1,
        (decodeFrom (position + 1) .between bs).2) := by
  rw [decodeFrom, if_pos hb]
  dsimp only
  rw [if_pos howed]
  rfl

theorem decodeFrom_more (hb : lead.low ≤ b ∧ b ≤ lead.high) (howed : ¬ lead.owed ≤ 1) :
    decodeFrom position (.inside start taken lead) (b :: bs) =
      decodeFrom (position + 1) (.inside start (taken ++ [b]) (lead.next b)) bs := by
  rw [decodeFrom, if_pos hb]
  dsimp only
  rw [if_neg howed]
  rfl

theorem toNat_continuation (n : Nat) :
    (UInt8.ofNat (n % 0x40 + 0x80)).toNat = n % 0x40 + 0x80 := by
  rw [UInt8.toNat_ofNat']
  omega

/-- After the first of them nothing but the bits tells continuation bytes apart. -/
theorem next_begins_iff :
    (lead.next b).Begins v ↔
      leading v (lead.owed - 1) = lead.bits * 0x40 + (b.toNat - 0x80) := by
  refine ⟨Lead.Begins.bits, fun hbits => ⟨hbits, Nat.le_add_left _ _, ?_⟩⟩
  show _ ≤ 0xBF
  omega

/-- What a code point begins with is told by the lead byte and the next byte as it is by both
of them together. -/
theorem next_begins_iff_of_sound (hsound : lead.Sound) (hb : lead.low ≤ b ∧ b ≤ lead.high) :
    (lead.next b).Begins v ↔
      lead.Begins v ∧ b = UInt8.ofNat (leading v (lead.owed - 1) % 0x40 + 0x80) := by
  obtain ⟨count, howed⟩ := Nat.exists_eq_add_of_le' hsound.owed
  have hlow := hsound.low
  have hhigh := hsound.high
  have hsplit : leading v (count + 1) = leading v count / 0x40 := rfl
  rw [UInt8.le_iff_toNat_le, UInt8.le_iff_toNat_le] at hb
  rw [next_begins_iff, ← UInt8.toNat_inj, toNat_continuation, howed, Nat.add_sub_cancel]
  constructor
  · intro hbits
    have hbyte : b.toNat = leading v count % 0x40 + 0x80 := by omega
    refine ⟨⟨?_, ?_, ?_⟩, hbyte⟩
    · rw [howed]
      omega
    · rw [howed, Nat.add_sub_cancel, ← hbyte]
      exact hb.1
    · rw [howed, Nat.add_sub_cancel, ← hbyte]
      exact hb.2
  · rintro ⟨⟨hbits, -, -⟩, hbyte⟩
    rw [howed] at hbits
    omega

theorem sound_next (howed : ¬ lead.owed ≤ 1) : (lead.next b).Sound :=
  ⟨Nat.le_sub_of_add_le (Nat.lt_of_not_le howed), Nat.le_refl _, Nat.le_refl _⟩

end Utf8Lemmas

open Utf8Lemmas

/-- Inside a character the continuation bytes of a code point that can begin so are taken, and
nothing else is. -/
theorem decodeFrom_inside {lead : Lead} {position start : Nat} {taken bs : List UInt8}
    {cs : List Char} (hsound : lead.Sound) :
    decodeFrom position (.inside start taken lead) bs = (cs, none) ↔
      ∃ v rest more, lead.Begins v ∧ bs = continuation v lead.owed ++ rest ∧
        cs = Char.ofNat v :: more ∧
        decodeFrom (position + lead.owed) .between rest = (more, none) := by
  induction bs generalizing position taken lead cs with
  | nil =>
    constructor
    · intro h
      rw [decodeFrom] at h
      cases h
    · rintro ⟨v, rest, more, -, hbytes, -, -⟩
      obtain ⟨count, howed⟩ := Nat.exists_eq_add_of_le' hsound.owed
      rw [howed, continuation] at hbytes
      cases hbytes
  | cons b bs ih =>
    obtain ⟨count, howed⟩ := Nat.exists_eq_add_of_le' hsound.owed
    have hcut {v : Nat} {rest : List UInt8} : b :: bs = continuation v lead.owed ++ rest ↔
        b = UInt8.ofNat (leading v (lead.owed - 1) % 0x40 + 0x80) ∧
          bs = continuation v (lead.owed - 1) ++ rest := by
      rw [howed, continuation, List.cons_append, List.cons.injEq]
      rfl
    by_cases hin : lead.low ≤ b ∧ b ≤ lead.high
    · have hbegins {v : Nat} {rest : List UInt8} :
          lead.Begins v ∧ b :: bs = continuation v lead.owed ++ rest ↔
            (lead.next b).Begins v ∧ bs = continuation v (lead.owed - 1) ++ rest := by
        rw [hcut, next_begins_iff_of_sound hsound hin, and_assoc]
      by_cases hlast : lead.owed ≤ 1
      · have hone : lead.owed = 1 := Nat.le_antisymm hlast hsound.owed
        have hbits {v : Nat} : (lead.next b).Begins v ↔ v = (lead.next b).bits := by
          rw [next_begins_iff, hone]
          rfl
        rw [decodeFrom_last hin hlast]
        constructor
        · intro h
          obtain ⟨hcs, hfault⟩ := Prod.mk.inj h
          have hrest : bs = continuation (lead.next b).bits (lead.owed - 1) ++ bs := by
            rw [hone]
            rfl
          obtain ⟨hv, hbytes⟩ := hbegins.mpr ⟨hbits.mpr rfl, hrest⟩
          refine ⟨_, bs, _, hv, hbytes, hcs.symm, ?_⟩
          rw [hone]
          exact Prod.ext rfl hfault
        · rintro ⟨v, rest, more, hv, hbytes, rfl, hrest⟩
          obtain ⟨hv, hbytes⟩ := hbegins.mp ⟨hv, hbytes⟩
          rw [hone] at hbytes hrest
          obtain rfl : bs = rest := hbytes
          rw [hbits.mp hv, hrest]
      · have hposition : position + 1 + (lead.next b).owed = position + lead.owed := by
          show position + 1 + (lead.owed - 1) = _
          omega
        rw [decodeFrom_more hin hlast, ih (sound_next hlast), hposition]
        constructor
        · rintro ⟨v, rest, more, hv, hbytes, hcs, hrest⟩
          obtain ⟨hv, hbytes⟩ := hbegins.mpr ⟨hv, hbytes⟩
          exact ⟨v, rest, more, hv, hbytes, hcs, hrest⟩
        · rintro ⟨v, rest, more, hv, hbytes, hcs, hrest⟩
          obtain ⟨hv, hbytes⟩ := hbegins.mp ⟨hv, hbytes⟩
          exact ⟨v, rest, more, hv, hbytes, hcs, hrest⟩
    · constructor
      · intro h
        rw [decodeFrom, if_neg hin] at h
        cases h
      · rintro ⟨v, rest, more, ⟨-, hlow, hhigh⟩, hbytes, -, -⟩
        rw [← toNat_continuation, ← (hcut.mp hbytes).1] at hlow hhigh
        exact absurd ⟨UInt8.le_iff_toNat_le.mpr hlow, UInt8.le_iff_toNat_le.mpr hhigh⟩ hin

/-! ## 2. Lead bytes -/

namespace Utf8Lemmas

variable {lead : Lead} {v : Nat} {b : UInt8} {c : Char}

theorem utf8EncodeChar_ascii (h : c.toNat < 0x80) :
    String.utf8EncodeChar c = [UInt8.ofNat c.toNat] := by
  have hval : c.val.toNat = c.toNat := rfl
  unfold String.utf8EncodeChar
  dsimp only
  rw [hval, if_pos (by omega)]

theorem utf8EncodeChar_two (h : 0x80 ≤ c.toNat ∧ c.toNat < 0x800) :
    String.utf8EncodeChar c =
      UInt8.ofNat (c.toNat / 0x40 + 0xC0) :: continuation c.toNat 1 := by
  have hval : c.val.toNat = c.toNat := rfl
  have hlead : c.toNat / 0x40 % 0x20 = c.toNat / 0x40 := by omega
  unfold String.utf8EncodeChar
  dsimp only
  rw [hval, if_neg (by omega), if_pos (by omega), hlead]
  rfl

theorem utf8EncodeChar_three (h : 0x800 ≤ c.toNat ∧ c.toNat < 0x10000) :
    String.utf8EncodeChar c =
      UInt8.ofNat (c.toNat / 0x1000 + 0xE0) :: continuation c.toNat 2 := by
  have hval : c.val.toNat = c.toNat := rfl
  have hlead : c.toNat / 0x1000 % 0x10 = c.toNat / 0x1000 := by omega
  unfold String.utf8EncodeChar
  dsimp only
  rw [hval, if_neg (by omega), if_neg (by omega), if_pos (by omega), hlead]
  rfl

theorem utf8EncodeChar_four (h : 0x10000 ≤ c.toNat ∧ c.toNat < 0x110000) :
    String.utf8EncodeChar c =
      UInt8.ofNat (c.toNat / 0x40000 + 0xF0) :: continuation c.toNat 3 := by
  have hval : c.val.toNat = c.toNat := rfl
  have hlead : c.toNat / 0x40000 % 8 = c.toNat / 0x40000 := by omega
  unfold String.utf8EncodeChar
  dsimp only
  rw [hval, if_neg (by omega), if_neg (by omega), if_neg (by omega), hlead]
  rw [← leading_two]
  rfl

/-- The lead bytes of each width, and the code points that can begin with them. -/
theorem lead?_cases (h : lead? b = some lead) :
    (lead.owed = 1 ∧ b.toNat = lead.bits + 0xC0 ∧
      ∀ v, lead.Begins v → 0x80 ≤ v ∧ v < 0x800) ∨
    (lead.owed = 2 ∧ b.toNat = lead.bits + 0xE0 ∧
      ∀ v, lead.Begins v → 0x800 ≤ v ∧ v < 0x10000 ∧ ¬ (0xD800 ≤ v ∧ v < 0xE000)) ∨
    (lead.owed = 3 ∧ b.toNat = lead.bits + 0xF0 ∧
      ∀ v, lead.Begins v → 0x10000 ≤ v ∧ v < 0x110000) := by
  unfold lead? at h
  simp only [UInt8.le_iff_toNat_le, ← UInt8.toNat_inj, UInt8.reduceToNat] at h
  split at h
  · cases h
    refine .inl ⟨rfl, (Nat.sub_add_cancel (by omega)).symm, fun v hv => ?_⟩
    have hbits : v / 0x40 = b.toNat - 0xC0 := hv.bits
    omega
  split at h
  · next hb =>
    cases h
    refine .inr (.inl ⟨rfl, hb, fun v hv => ?_⟩)
    have hbits : leading v 2 = 0 := hv.bits
    have hlow : 0xA0 ≤ v / 0x40 % 0x40 + 0x80 := hv.low
    rw [leading_two] at hbits
    omega
  split at h
  · next hb =>
    cases h
    refine .inr (.inl ⟨rfl, hb, fun v hv => ?_⟩)
    have hbits : leading v 2 = 0xD := hv.bits
    have hhigh : v / 0x40 % 0x40 + 0x80 ≤ 0x9F := hv.high
    rw [leading_two] at hbits
    omega
  split at h
  · next hne hb =>
    cases h
    refine .inr (.inl ⟨rfl, (Nat.sub_add_cancel (by omega)).symm, fun v hv => ?_⟩)
    have hbits : leading v 2 = b.toNat - 0xE0 := hv.bits
    rw [leading_two] at hbits
    omega
  split at h
  · next hb =>
    cases h
    refine .inr (.inr ⟨rfl, hb, fun v hv => ?_⟩)
    have hbits : leading v 3 = 0 := hv.bits
    have hlow : 0x90 ≤ leading v 2 % 0x40 + 0x80 := hv.low
    rw [leading_three] at hbits
    rw [leading_two] at hlow
    omega
  split at h
  · next hb =>
    cases h
    refine .inr (.inr ⟨rfl, hb, fun v hv => ?_⟩)
    have hbits : leading v 3 = 4 := hv.bits
    have hhigh : leading v 2 % 0x40 + 0x80 ≤ 0x8F := hv.high
    rw [leading_three] at hbits
    rw [leading_two] at hhigh
    omega
  split at h
  · cases h
    refine .inr (.inr ⟨rfl, (Nat.sub_add_cancel (by omega)).symm, fun v hv => ?_⟩)
    have hbits : leading v 3 = b.toNat - 0xF0 := hv.bits
    rw [leading_three] at hbits
    omega
  · cases h

theorem sound_mk {owed bits : Nat} {low high : UInt8}
    (h : 1 ≤ owed ∧ 0x80 ≤ low.toNat ∧ high.toNat ≤ 0xBF) : Lead.Sound ⟨owed, low, high, bits⟩ :=
  ⟨h.1, h.2.1, h.2.2⟩

theorem sound_of_lead? (h : lead? b = some lead) : lead.Sound := by
  unfold lead? at h
  repeat' split at h
  all_goals
    cases h
  all_goals
    exact sound_mk (by decide)

theorem toNat_charOfNat (h : v.isValidChar) : (Char.ofNat v).toNat = v := by
  unfold Char.ofNat
  rw [dif_pos h]
  rfl

theorem lead?_two (hb : b.toNat = v / 0x40 + 0xC0) (h : 0x80 ≤ v ∧ v < 0x800) :
    ∃ lead, lead? b = some lead ∧ lead.owed = 1 ∧ lead.Begins v := by
  have hhigh : v % 0x40 + 0x80 ≤ 0xBF := by omega
  unfold lead?
  simp only [UInt8.le_iff_toNat_le, ← UInt8.toNat_inj, UInt8.reduceToNat, hb]
  rw [if_pos (by omega), Nat.add_sub_cancel]
  exact ⟨_, rfl, rfl, rfl, Nat.le_add_left _ _, hhigh⟩

theorem lead?_three (hb : b.toNat = v / 0x1000 + 0xE0) (h : 0x800 ≤ v ∧ v < 0x10000)
    (hchar : ¬ (0xD800 ≤ v ∧ v < 0xE000)) :
    ∃ lead, lead? b = some lead ∧ lead.owed = 2 ∧ lead.Begins v := by
  have hhigh : v / 0x40 % 0x40 + 0x80 ≤ 0xBF := by omega
  unfold lead?
  simp only [UInt8.le_iff_toNat_le, ← UInt8.toNat_inj, UInt8.reduceToNat, hb]
  rw [if_neg (by omega), Nat.add_sub_cancel]
  split
  · have hbits : leading v 2 = 0 := by rw [leading_two]; omega
    have hlow : 0xA0 ≤ v / 0x40 % 0x40 + 0x80 := by omega
    exact ⟨_, rfl, rfl, hbits, hlow, hhigh⟩
  split
  · have hbits : leading v 2 = 0xD := by rw [leading_two]; omega
    have hhigh : v / 0x40 % 0x40 + 0x80 ≤ 0x9F := by omega
    exact ⟨_, rfl, rfl, hbits, Nat.le_add_left _ _, hhigh⟩
  · rw [if_pos (by omega)]
    exact ⟨_, rfl, rfl, leading_two v, Nat.le_add_left _ _, hhigh⟩

theorem lead?_four (hb : b.toNat = v / 0x40000 + 0xF0) (h : 0x10000 ≤ v ∧ v < 0x110000) :
    ∃ lead, lead? b = some lead ∧ lead.owed = 3 ∧ lead.Begins v := by
  have hhigh : leading v 2 % 0x40 + 0x80 ≤ 0xBF := by omega
  unfold lead?
  simp only [UInt8.le_iff_toNat_le, ← UInt8.toNat_inj, UInt8.reduceToNat, hb]
  rw [if_neg (by omega), if_neg (by omega), if_neg (by omega), if_neg (by omega),
    Nat.add_sub_cancel]
  split
  · have hbits : leading v 3 = 0 := by rw [leading_three]; omega
    have hlow : 0x90 ≤ leading v 2 % 0x40 + 0x80 := by rw [leading_two]; omega
    exact ⟨_, rfl, rfl, hbits, hlow, hhigh⟩
  split
  · have hbits : leading v 3 = 4 := by rw [leading_three]; omega
    have hhigh : leading v 2 % 0x40 + 0x80 ≤ 0x8F := by rw [leading_two]; omega
    exact ⟨_, rfl, rfl, hbits, Nat.le_add_left _ _, hhigh⟩
  · rw [if_pos (by omega)]
    exact ⟨_, rfl, rfl, leading_three v, Nat.le_add_left _ _, hhigh⟩

end Utf8Lemmas

/-- A lead byte and the continuation bytes of a code point that can begin with it encode the
character with this code point. -/
theorem utf8EncodeChar_of_lead? {b : UInt8} {lead : Lead} {v : Nat} (h : lead? b = some lead)
    (hbegins : lead.Begins v) :
    String.utf8EncodeChar (Char.ofNat v) = b :: continuation v lead.owed := by
  have hbits := hbegins.bits
  have hbyte {n : Nat} (hn : n = b.toNat) : UInt8.ofNat n = b := by
    rw [hn]
    exact UInt8.ofNat_toNat
  rcases lead?_cases h with ⟨howed, hb, hrange⟩ | ⟨howed, hb, hrange⟩ | ⟨howed, hb, hrange⟩
  · have hv := hrange v hbegins
    have hchar : (Char.ofNat v).toNat = v := toNat_charOfNat (.inl (by omega))
    rw [utf8EncodeChar_two (by omega), hchar, howed, hbyte]
    rw [hb, ← hbits, howed]
    rfl
  · have hv := hrange v hbegins
    have hchar : (Char.ofNat v).toNat = v := toNat_charOfNat (by unfold Nat.isValidChar; omega)
    rw [utf8EncodeChar_three (by omega), hchar, howed, hbyte]
    rw [hb, ← hbits, howed, leading_two]
  · have hv := hrange v hbegins
    have hchar : (Char.ofNat v).toNat = v := toNat_charOfNat (.inr (by omega))
    rw [utf8EncodeChar_four (by omega), hchar, howed, hbyte]
    rw [hb, ← hbits, howed, leading_three]

/-- Every character beyond ASCII is encoded by a lead byte that it can begin with and its
continuation bytes. -/
theorem lead?_of_utf8EncodeChar {c : Char} (h : 0x80 ≤ c.toNat) :
    ∃ b lead, ¬ b < 0x80 ∧ lead? b = some lead ∧ lead.Begins c.toNat ∧
      String.utf8EncodeChar c = b :: continuation c.toNat lead.owed := by
  have hvalid : c.toNat < 0xD800 ∨ 0xDFFF < c.toNat ∧ c.toNat < 0x110000 := c.valid
  have hbyte {n : Nat} (hn : 0x80 ≤ n ∧ n < 0x100) :
      (UInt8.ofNat n).toNat = n ∧ ¬ UInt8.ofNat n < 0x80 := by
    have htoNat : (UInt8.ofNat n).toNat = n := by
      rw [UInt8.toNat_ofNat']
      omega
    refine ⟨htoNat, fun hlt => ?_⟩
    rw [UInt8.lt_iff_toNat_lt, htoNat] at hlt
    exact Nat.not_lt.mpr hn.1 hlt
  by_cases htwo : c.toNat < 0x800
  · obtain ⟨hb, hascii⟩ := hbyte (n := c.toNat / 0x40 + 0xC0) (by omega)
    obtain ⟨lead, hlead, howed, hbegins⟩ := lead?_two hb ⟨h, htwo⟩
    exact ⟨_, lead, hascii, hlead, hbegins, howed ▸ utf8EncodeChar_two ⟨h, htwo⟩⟩
  by_cases hthree : c.toNat < 0x10000
  · have hrange : 0x800 ≤ c.toNat ∧ c.toNat < 0x10000 := by omega
    obtain ⟨hb, hascii⟩ := hbyte (n := c.toNat / 0x1000 + 0xE0) (by omega)
    obtain ⟨lead, hlead, howed, hbegins⟩ := lead?_three hb hrange (by omega)
    exact ⟨_, lead, hascii, hlead, hbegins, howed ▸ utf8EncodeChar_three hrange⟩
  · have hrange : 0x10000 ≤ c.toNat ∧ c.toNat < 0x110000 := by omega
    obtain ⟨hb, hascii⟩ := hbyte (n := c.toNat / 0x40000 + 0xF0) (by omega)
    obtain ⟨lead, hlead, howed, hbegins⟩ := lead?_four hb hrange
    exact ⟨_, lead, hascii, hlead, hbegins, howed ▸ utf8EncodeChar_four hrange⟩

/-! ## 3. All of the bytes -/

namespace Utf8Lemmas

theorem encode_of_decodeFrom {position : Nat} {bs : List UInt8} {cs : List Char}
    (h : decodeFrom position .between bs = (cs, none)) : bs = encode cs := by
  induction hlength : bs.length using Nat.strongRecOn generalizing position bs cs with
  | ind length ih =>
    subst hlength
    cases bs with
    | nil =>
      rw [decodeFrom] at h
      cases h
      rfl
    | cons b bs =>
      rw [decodeFrom] at h
      split at h
      · next hascii =>
        obtain ⟨rfl, hfault⟩ := Prod.mk.inj h
        have hrest := ih bs.length (Nat.lt_succ_self _) (Prod.ext rfl hfault) rfl
        have hchar : (Char.ofNat b.toNat).toNat = b.toNat :=
          toNat_charOfNat (.inl (Nat.lt_trans hascii (by decide)))
        have hbyte : String.utf8EncodeChar (Char.ofNat b.toNat) = [b] := by
          have hsmall : (Char.ofNat b.toNat).toNat < 0x80 := by
            rw [hchar]
            exact hascii
          rw [utf8EncodeChar_ascii hsmall, hchar, UInt8.ofNat_toNat]
        rw [encode_cons, hbyte, ← hrest]
        rfl
      · split at h
        · cases h
        · next lead hlead =>
          obtain ⟨v, rest, more, hbegins, rfl, rfl, hmore⟩ :=
            (decodeFrom_inside (sound_of_lead? hlead)).mp h
          have hshorter : rest.length < (b :: (continuation v lead.owed ++ rest)).length := by
            rw [List.length_cons, List.length_append]
            omega
          have hrest := ih rest.length hshorter hmore rfl
          rw [encode_cons, utf8EncodeChar_of_lead? hlead hbegins, ← hrest]
          rfl

theorem decodeFrom_encode (cs : List Char) (position : Nat) :
    decodeFrom position .between (encode cs) = (cs, none) := by
  induction cs generalizing position with
  | nil =>
    show decodeFrom position .between [] = _
    rw [decodeFrom]
  | cons c cs ih =>
    rw [encode_cons]
    by_cases hascii : c.toNat < 0x80
    · have hbyte : (UInt8.ofNat c.toNat).toNat = c.toNat := by
        rw [UInt8.toNat_ofNat']
        omega
      have hlt : UInt8.ofNat c.toNat < 0x80 := by
        rw [UInt8.lt_iff_toNat_lt, hbyte]
        exact hascii
      rw [utf8EncodeChar_ascii hascii, List.singleton_append, decodeFrom, if_pos hlt, ih, hbyte,
        Char.ofNat_toNat]
    · obtain ⟨b, lead, hb, hlead, hbegins, hbytes⟩ :=
        lead?_of_utf8EncodeChar (Nat.le_of_not_lt hascii)
      rw [hbytes, List.cons_append, decodeFrom, if_neg hb, hlead]
      refine (decodeFrom_inside (sound_of_lead? hlead)).mpr
        ⟨c.toNat, encode cs, cs, hbegins, rfl, ?_, ih _⟩
      rw [Char.ofNat_toNat]

end Utf8Lemmas

/-- Bytes are decoded into characters exactly when the characters are encoded so. -/
theorem decode_eq_ok {bs : List UInt8} {cs : List Char} : decode bs = .ok cs ↔ bs = encode cs := by
  constructor
  · intro h
    unfold decode at h
    split at h
    · next hdecode =>
      cases h
      exact encode_of_decodeFrom hdecode
    · cases h
  · rintro rfl
    rw [decode, decodePrefix, decodeFrom_encode]

end Abacus.Text.Utf8
