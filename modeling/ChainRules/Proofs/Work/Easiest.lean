import ChainRules.Proofs.Work.Target

/-!
# Targets above the easiest one

The network's easiest target is the greatest number with 32 bytes that spare the highest bit. Bits of
the next two exponents reach beyond it and still stay below 2^256 if their mantissa is small. The
check of a header's work does not compare with the easiest target, so whoever makes a header may
choose such bits; no others lead beyond it.
-/

namespace ChainRules

namespace Target

/-- Bits that spell a number above the easiest target and below 2^256. -/
def IsTooEasy (bits : UInt32) : Prop :=
  (0x21008000 ≤ bits ∧ bits ≤ 0x2100ffff) ∨ (0x22000080 ≤ bits ∧ bits ≤ 0x220000ff)

instance : DecidablePred IsTooEasy :=
  fun _ => inferInstanceAs (Decidable (_ ∨ _))

theorem toNat_eq (bits : UInt32) :
    bits.toNat = 2 ^ 24 * exponent bits + (2 ^ 23 * (signBit bits).toNat + mantissa bits) := by
  unfold exponent signBit mantissa
  rw [Nat.toNat_testBit]
  omega

theorem exact_easiestBits : exact easiestBits = (2 ^ 23 - 1) * 256 ^ 29 := by
  decide +kernel

variable {bits : UInt32}

/-- With at most 32 bytes nothing is above the easiest target. -/
theorem exact_le_of_exponent_le (h : exponent bits ≤ 32) : exact bits ≤ exact easiestBits := by
  have hmantissa : mantissa bits ≤ 2 ^ 23 - 1 := Nat.le_pred_of_lt (mantissa_lt bits)
  rw [exact_easiestBits]
  by_cases hshort : exponent bits ≤ 3
  · have hlt := exact_lt_of_le hshort
    exact (Nat.le_pred_of_lt hlt).trans (Nat.le_mul_of_pos_right _ (Nat.pow_pos (by decide)))
  · rw [exact_of_lt (Nat.lt_of_not_le hshort)]
    exact Nat.mul_le_mul hmantissa (Nat.pow_le_pow_right (by decide) (by omega))

/-- A positive number of bits with more than 34 bytes takes more than 256 bits. -/
theorem exact_eq_zero_of_exponent_ge (h : 35 ≤ exponent bits) (hfits : exact bits < 2 ^ 256) :
    exact bits = 0 := by
  rw [exact_of_lt (by omega)] at hfits ⊢
  by_contra hne
  have hbytes : 256 ^ 32 ≤ 256 ^ (exponent bits - 3) := Nat.pow_le_pow_right (by decide) (by omega)
  have hle : 256 ^ (exponent bits - 3) ≤ mantissa bits * 256 ^ (exponent bits - 3) :=
    Nat.le_mul_of_pos_left _ (Nat.pos_of_ne_zero fun hzero => hne (by rw [hzero, Nat.zero_mul]))
  exact absurd (hbytes.trans hle) (Nat.not_le.2 hfits)

/-- A usable target is above the easiest one exactly if its bits are of two ranges. -/
theorem usable_above_easiest_iff (bits : UInt32) :
    (ofBits bits).isUsable = true ∧ exact easiestBits < exact bits ↔ IsTooEasy bits := by
  have hbits := toNat_eq bits
  have hmantissa := mantissa_lt bits
  have heasiest := exact_easiestBits
  unfold IsTooEasy
  simp only [isUsable_ofBits_iff, UInt32.le_iff_toNat_le, UInt32.reduceToNat]
  cases hsign : signBit bits with
  | true =>
    rw [hsign, Bool.toNat_true] at hbits
    simp only [Bool.true_eq_false, and_false, false_and, false_iff]
    omega
  | false =>
    rw [hsign, Bool.toNat_false] at hbits
    simp only [and_true]
    obtain hbelow | hfirst | hsecond | habove :
        exponent bits ≤ 32 ∨ exponent bits = 33 ∨ exponent bits = 34 ∨ 35 ≤ exponent bits := by
      omega
    · have hle := exact_le_of_exponent_le hbelow
      omega
    -- with 33 or 34 bytes the mantissa decides on both bounds
    · have hexact : exact bits = mantissa bits * 256 ^ 30 := by
        rw [exact_of_lt (by omega), hfirst]
      omega
    · have hexact : exact bits = mantissa bits * 256 ^ 31 := by
        rw [exact_of_lt (by omega), hsecond]
      omega
    · have hzero := exact_eq_zero_of_exponent_ge habove
      omega

end Target

theorem Header.hasWork_eq_ok_true_iff {h : Header} :
    h.hasWork = .ok true ↔
      (Target.ofBits h.bits).isUsable = true ∧ h.id.toNat < Target.exact h.bits := by
  unfold hasWork
  dsimp only
  by_cases husable : (Target.ofBits h.bits).isUsable = true
  · rw [if_pos husable, Word256.cmp_eq_compare, Word256.toNat_ofHash,
      Target.toNat_value_of_isUsable husable]
    simp [husable, Nat.compare_eq_lt]
  · simp [husable]

/-- A header whose target is above the network's easiest one shows enough work if and only if its
bits are of two ranges and its id, as a number, is below its target. Every other header that shows
enough work has a target that is at most the easiest one. -/
theorem Header.work_above_easiest (h : Header) :
    h.hasWork = .ok true ∧ Target.exact Target.easiestBits < Target.exact h.bits ↔
      Target.IsTooEasy h.bits ∧ h.id.toNat < Target.exact h.bits := by
  rw [hasWork_eq_ok_true_iff, and_right_comm, Target.usable_above_easiest_iff]

/-- A header with bits that spell about twice the easiest target. -/
def sampleTooEasy : Header :=
  ⟨1, .zero, .zero, 1231006505, 0x2100ffff, 0⟩

/-- The header shows enough work for its own target, which is above the easiest one. -/
theorem work_too_easy :
    sampleTooEasy.hasWork = .ok true ∧
      ¬Target.exact sampleTooEasy.bits ≤ Target.exact Target.easiestBits := by
  decide +kernel

end ChainRules
