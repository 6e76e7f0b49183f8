import ChainRules.Proofs.Work.Word256
import ChainRules.Work.Target

/-!
# What a header's work is measured by

Compact bits spell a number: a mantissa times a power of 256, or the integral part of it where the
power is negative. The check of a header's work compares with exactly this number. It refuses the
bits if their sign bit is set, if no hash is below the number, or if the number takes more than 256
bits.
-/

namespace ChainRules

namespace Target

/-- The low 23 bits. -/
def mantissa (bits : UInt32) : Nat :=
  bits.toNat % 2 ^ 23

/-- The high byte. -/
def exponent (bits : UInt32) : Nat :=
  bits.toNat / 2 ^ 24

/-- The bit between the mantissa and the exponent. -/
def signBit (bits : UInt32) : Bool :=
  bits.toNat.testBit 23

/-- The number that compact bits spell, their sign apart. -/
def exact (bits : UInt32) : Nat :=
  if 3 < exponent bits then mantissa bits * 256 ^ (exponent bits - 3)
  else mantissa bits / 256 ^ (3 - exponent bits)

theorem mantissa_lt (bits : UInt32) : mantissa bits < 2 ^ 23 :=
  Nat.mod_lt _ (by decide)

/-- A number of at most three bytes, moved up by whole bytes, takes more than 32 of them exactly if
its own bytes and those behind it do. -/
theorem two_pow_le_mul_iff {m k : Nat} (hm : m < 256 ^ 3) :
    2 ^ 256 ≤ m * 256 ^ k ↔ m ≠ 0 ∧ (31 < k ∨ (0xff < m ∧ 30 < k) ∨ (0xffff < m ∧ 29 < k)) := by
  by_cases hlong : 31 < k
  · have hpow : 256 ^ 32 ≤ 256 ^ k := Nat.pow_le_pow_right (by decide) hlong
    refine ⟨fun h => ⟨?_, .inl hlong⟩, fun h => ?_⟩
    · rintro rfl
      simp at h
    · exact hpow.trans (Nat.le_mul_of_pos_left _ (Nat.pos_of_ne_zero h.1))
  · have hbytes : 2 ^ 256 = 256 ^ (32 - k) * 256 ^ k := by
      rw [← pow_add, Nat.sub_add_cancel (by omega)]
      rfl
    rw [hbytes, Nat.mul_le_mul_right_iff (Nat.pow_pos (by decide))]
    by_cases hthree : 29 < k
    · obtain rfl | rfl : k = 30 ∨ k = 31 := by omega
      · omega
      · omega
    · have hpow : 256 ^ 3 ≤ 256 ^ (32 - k) := Nat.pow_le_pow_right (by decide) (by omega)
      omega

variable {bits : UInt32}

/-! ## Expanding -/

theorem exponent_eq (bits : UInt32) : bits.toNat >>> 24 = exponent bits :=
  Nat.shiftRight_eq_div_pow _ _

theorem ofBits_of_le (h : exponent bits ≤ 3) :
    ofBits bits =
      { value := .ofUInt64 (.ofNat (exact bits))
        negative := exact bits ≠ 0 && signBit bits
        overflow := false } := by
  have hexact : (bits.toNat % 0x800000) >>> (8 * (3 - exponent bits)) = exact bits := by
    rw [exact, if_neg (Nat.not_lt.2 h), Nat.shiftRight_eq_div_pow, pow_mul]
    rfl
  unfold ofBits
  have hsmall : ∀ {n : Nat}, 3 ≤ n → ¬n < exponent bits :=
    fun hn => Nat.not_lt.2 (h.trans hn)
  simp [exponent_eq, h, hexact, signBit, hsmall]

theorem ofBits_of_lt (h : 3 < exponent bits) :
    ofBits bits =
      { value := (Word256.ofUInt64 (.ofNat (mantissa bits))).shiftLeft (8 * (exponent bits - 3))
        negative := mantissa bits ≠ 0 && signBit bits
        overflow := mantissa bits ≠ 0 && (34 < exponent bits ||
          (0xff < mantissa bits && 33 < exponent bits) ||
          (0xffff < mantissa bits && 32 < exponent bits)) } := by
  unfold ofBits
  simp only [exponent_eq, if_neg (Nat.not_le.2 h)]
  rfl

theorem exact_lt_of_le (h : exponent bits ≤ 3) : exact bits < 2 ^ 23 := by
  rw [exact, if_neg (Nat.not_lt.2 h)]
  exact (Nat.div_le_self _ _).trans_lt (mantissa_lt bits)

theorem exact_of_lt (h : 3 < exponent bits) :
    exact bits = mantissa bits * 256 ^ (exponent bits - 3) :=
  if_pos h

theorem exact_eq_zero_iff_of_lt (h : 3 < exponent bits) : exact bits = 0 ↔ mantissa bits = 0 := by
  simp [exact_of_lt h]

/-- The bits are expanded to the word that the number leaves of itself in 256 bits. -/
theorem toNat_value_ofBits (bits : UInt32) :
    (ofBits bits).value.toNat = exact bits % 2 ^ 256 := by
  have hlimb : ∀ {n : Nat}, n < 2 ^ 23 → (UInt64.ofNat n).toNat = n := by
    intro n hn
    apply UInt64.toNat_ofNat_of_lt'
    exact hn.trans (by decide)
  by_cases hexponent : exponent bits ≤ 3
  · have hlt := exact_lt_of_le hexponent
    rw [ofBits_of_le hexponent, Word256.toNat_ofUInt64, hlimb hlt, Nat.mod_eq_of_lt]
    exact hlt.trans (by decide)
  · have hlong := Nat.lt_of_not_le hexponent
    rw [ofBits_of_lt hlong, exact_of_lt hlong, Word256.toNat_shiftLeft, Word256.toNat_ofUInt64,
      hlimb (mantissa_lt bits), pow_mul]
    rfl

theorem negative_ofBits_iff (bits : UInt32) :
    (ofBits bits).negative = true ↔ exact bits ≠ 0 ∧ signBit bits = true := by
  by_cases hexponent : exponent bits ≤ 3
  · simp [ofBits_of_le hexponent]
  · have hlong := Nat.lt_of_not_le hexponent
    simp [ofBits_of_lt hlong, exact_eq_zero_iff_of_lt hlong]

theorem overflow_ofBits_iff (bits : UInt32) :
    (ofBits bits).overflow = true ↔ 2 ^ 256 ≤ exact bits := by
  by_cases hexponent : exponent bits ≤ 3
  · have hlt := (exact_lt_of_le hexponent).trans (show 2 ^ 23 < 2 ^ 256 by decide)
    rw [ofBits_of_le hexponent]
    exact iff_of_false Bool.false_ne_true (Nat.not_le.2 hlt)
  · have hlong := Nat.lt_of_not_le hexponent
    have hbytes := two_pow_le_mul_iff (k := exponent bits - 3)
      ((mantissa_lt bits).trans (show 2 ^ 23 < 256 ^ 3 by decide))
    rw [exact_of_lt hlong, hbytes, ofBits_of_lt hlong]
    simp only [Bool.and_eq_true, Bool.or_eq_true, decide_eq_true_eq]
    omega

/-- A target is usable if it is positive and below 2^256. -/
theorem isUsable_ofBits_iff (bits : UInt32) :
    (ofBits bits).isUsable = true ↔
      exact bits ≠ 0 ∧ exact bits < 2 ^ 256 ∧ signBit bits = false := by
  have hvalue := toNat_value_ofBits bits
  unfold isUsable
  simp only [Bool.and_eq_true, Bool.not_eq_true', ← Bool.not_eq_true, negative_ofBits_iff,
    overflow_ofBits_iff, Word256.isZero_iff, hvalue]
  constructor
  · rintro ⟨⟨hpositive, hfits⟩, hnonzero⟩
    rw [Nat.mod_eq_of_lt (Nat.lt_of_not_le hfits)] at hnonzero
    exact ⟨hnonzero, Nat.lt_of_not_le hfits, fun hsign => hpositive ⟨hnonzero, hsign⟩⟩
  · rintro ⟨hnonzero, hfits, hpositive⟩
    rw [Nat.mod_eq_of_lt hfits]
    exact ⟨⟨fun hnegative => hpositive hnegative.2, Nat.not_le_of_lt hfits⟩, hnonzero⟩

/-- A usable target is expanded to exactly the number that its bits spell. -/
theorem toNat_value_of_isUsable (h : (ofBits bits).isUsable = true) :
    (ofBits bits).value.toNat = exact bits := by
  rw [toNat_value_ofBits, Nat.mod_eq_of_lt ((isUsable_ofBits_iff bits).1 h).2.1]

end Target

/-- The work of a header is decided by the number that its bits spell: the bits are refused if this
is zero or takes more than 256 bits or if the sign bit is set, and otherwise the header has enough
work exactly if its id, as a number, is below. -/
theorem Header.hasWork_exact (h : Header) :
    h.hasWork =
      if Target.exact h.bits = 0 ∨ 2 ^ 256 ≤ Target.exact h.bits ∨ Target.signBit h.bits = true then
        .error (.unusableTarget h.bits)
      else .ok (decide (h.id.toNat < Target.exact h.bits)) := by
  have husable := Target.isUsable_ofBits_iff h.bits
  unfold hasWork
  dsimp only
  by_cases hspelled : (Target.ofBits h.bits).isUsable = true
  · obtain ⟨hnonzero, hfits, hpositive⟩ := husable.1 hspelled
    rw [if_pos hspelled, if_neg, Word256.cmp_eq_compare, Word256.toNat_ofHash,
      Target.toNat_value_of_isUsable hspelled]
    · simp only [Nat.compare_eq_lt]
    · simp only [hnonzero, Nat.not_le_of_lt hfits, hpositive]
      decide
  · rw [if_neg hspelled, if_pos]
    by_contra hgood
    simp only [not_or, Nat.not_le, Bool.not_eq_true] at hgood
    exact hspelled (husable.2 hgood)

end ChainRules
