import Mathlib
import ChainRules.Bytes.Lemmas
import ChainRules.Work.Word256

/-!
# Arithmetic of 256-bit words

A word is the number that its four limbs spell to the base 2^64. A shift to the left multiplies it by
a power of two and drops what leaves the word, a shift to the right divides it, and limbs are compared
as the numbers are. A hash is read as the number that it spells, and every word is written as one
hash.
-/

namespace ChainRules

namespace Word256

theorem toNat_lt (x : Word256) : x.toNat < 2 ^ 256 := by
  have ha := x.a.toNat_lt
  have hb := x.b.toNat_lt
  have hc := x.c.toNat_lt
  have hd := x.d.toNat_lt
  unfold toNat
  omega

/-- Words are told apart by the numbers that they stand for. -/
theorem toNat_inj {x y : Word256} : x.toNat = y.toNat ↔ x = y := by
  refine ⟨fun heq => ?_, congrArg toNat⟩
  obtain ⟨a, b, c, d⟩ := x
  obtain ⟨a', b', c', d'⟩ := y
  have ha := a.toNat_lt
  have hb := b.toNat_lt
  have hc := c.toNat_lt
  have ha' := a'.toNat_lt
  have hb' := b'.toNat_lt
  have hc' := c'.toNat_lt
  simp only [toNat] at heq
  simp only [mk.injEq, ← UInt64.toNat_inj]
  omega

theorem toNat_ofUInt64 (n : UInt64) : (ofUInt64 n).toNat = n.toNat := by
  simp [ofUInt64, toNat]

theorem isZero_iff (x : Word256) : x.isZero = true ↔ x.toNat = 0 := by
  simp only [isZero, toNat, Bool.and_eq_true, decide_eq_true_eq, ← UInt64.toNat_inj,
    UInt64.toNat_zero]
  omega

/-! ## Shifts -/

theorem toNat_limbsUp (n : Nat) (x : Word256) :
    (limbsUp n x).toNat = x.toNat * 2 ^ (64 * n) % 2 ^ 256 := by
  induction n generalizing x with
  | zero => rw [limbsUp, Nat.mul_zero, pow_zero, Nat.mul_one, Nat.mod_eq_of_lt x.toNat_lt]
  | succ n ih =>
    have hone : (⟨0, x.a, x.b, x.c⟩ : Word256).toNat = x.toNat * 2 ^ 64 % 2 ^ 256 := by
      have hlt := (⟨0, x.a, x.b, x.c⟩ : Word256).toNat_lt
      simp only [toNat, UInt64.toNat_zero] at hlt ⊢
      omega
    rw [limbsUp, ih, hone, Nat.mod_mul_mod, Nat.mul_assoc, ← pow_add, Nat.mul_succ, Nat.add_comm 64]

theorem toNat_limbsDown (n : Nat) (x : Word256) :
    (limbsDown n x).toNat = x.toNat / 2 ^ (64 * n) := by
  induction n generalizing x with
  | zero => rw [limbsDown, Nat.mul_zero, pow_zero, Nat.div_one]
  | succ n ih =>
    have hone : (⟨x.b, x.c, x.d, 0⟩ : Word256).toNat = x.toNat / 2 ^ 64 := by
      have ha := x.a.toNat_lt
      simp only [toNat, UInt64.toNat_zero]
      omega
    rw [limbsDown, ih, hone, Nat.div_div_eq_div_mul, ← pow_add, Nat.mul_succ, Nat.add_comm 64]

section Bits

variable {k : Nat} (hk : k < 64) (limb below : UInt64)
include hk

theorem toNat_ofNat_bits : (UInt64.ofNat k).toNat = k := by
  apply UInt64.toNat_ofNat_of_lt'
  show k < 2 ^ 64
  omega

/-- What stays in a limb that is moved up. -/
theorem toNat_stay :
    (limb <<< UInt64.ofNat k).toNat = limb.toNat * 2 ^ k % 2 ^ 64 := by
  rw [UInt64.toNat_shiftLeft, toNat_ofNat_bits hk, Nat.mod_eq_of_lt hk, Nat.shiftLeft_eq]

/-- What is carried out of a limb that is moved up. -/
theorem toNat_carry (hpos : 0 < k) :
    (limb >>> (64 - UInt64.ofNat k)).toNat = limb.toNat * 2 ^ k / 2 ^ 64 := by
  have hle : UInt64.ofNat k ≤ 64 := by
    rw [UInt64.le_iff_toNat_le, toNat_ofNat_bits hk]
    exact hk.le
  have hrest : (64 - UInt64.ofNat k).toNat = 64 - k := by
    rw [UInt64.toNat_sub_of_le _ _ hle, toNat_ofNat_bits hk]
    rfl
  have hwidth : (2 : Nat) ^ 64 = 2 ^ (64 - k) * 2 ^ k := (pow_sub_mul_pow 2 hk.le).symm
  rw [UInt64.toNat_shiftRight, hrest, Nat.mod_eq_of_lt (by omega), Nat.shiftRight_eq_div_pow, hwidth,
    Nat.mul_div_mul_right _ _ (Nat.two_pow_pos k)]

/-- What stays in a limb and what is carried into it do not overlap. -/
theorem toNat_stay_or_carry (hpos : 0 < k) :
    (limb <<< UInt64.ofNat k ||| below >>> (64 - UInt64.ofNat k)).toNat =
      limb.toNat * 2 ^ k % 2 ^ 64 + below.toNat * 2 ^ k / 2 ^ 64 := by
  have hwidth : (2 : Nat) ^ 64 = 2 ^ k * 2 ^ (64 - k) := (pow_mul_pow_sub 2 hk.le).symm
  have hstay : limb.toNat * 2 ^ k % 2 ^ 64 = 2 ^ k * (limb.toNat % 2 ^ (64 - k)) := by
    rw [hwidth, Nat.mul_comm limb.toNat, Nat.mul_mod_mul_left]
  have hcarry : below.toNat * 2 ^ k / 2 ^ 64 < 2 ^ k := by
    rw [Nat.div_lt_iff_lt_mul (Nat.two_pow_pos 64), Nat.mul_comm]
    exact Nat.mul_lt_mul_of_pos_left below.toNat_lt (Nat.two_pow_pos k)
  rw [UInt64.toNat_or, toNat_stay hk, toNat_carry hk below hpos, hstay,
    ← Nat.two_pow_add_eq_or_of_lt hcarry]

theorem toNat_bitsUp (hpos : 0 < k) (x : Word256) :
    (bitsUp (UInt64.ofNat k) x).toNat = x.toNat * 2 ^ k % 2 ^ 256 := by
  have hlt := (bitsUp (UInt64.ofNat k) x).toNat_lt
  simp only [toNat, bitsUp, toNat_stay hk, toNat_stay_or_carry hk _ _ hpos] at hlt ⊢
  -- what is carried out of each limb is what the next one takes in; only the last carry is lost
  have ha := Nat.mod_add_div (x.a.toNat * 2 ^ k) (2 ^ 64)
  have hb := Nat.mod_add_div (x.b.toNat * 2 ^ k) (2 ^ 64)
  have hc := Nat.mod_add_div (x.c.toNat * 2 ^ k) (2 ^ 64)
  have hd := Nat.mod_add_div (x.d.toNat * 2 ^ k) (2 ^ 64)
  simp only [Nat.add_mul, Nat.mul_assoc]
  omega

/-- To move a word down by `64 - k` bits is to multiply it by `2 ^ k` and to drop the lowest limb of the
product. -/
theorem toNat_bitsDown_rest (hpos : 0 < k) (x : Word256) :
    (bitsDown (64 - UInt64.ofNat k) x).toNat = x.toNat * 2 ^ k / 2 ^ 64 := by
  simp only [toNat, bitsDown, sub_sub_cancel, UInt64.or_comm (_ >>> _),
    toNat_stay_or_carry hk _ _ hpos, toNat_carry hk _ hpos]
  -- only what stays in the lowest limb is lost; every other limb meets its own carry again
  have hb := Nat.mod_add_div (x.b.toNat * 2 ^ k) (2 ^ 64)
  have hc := Nat.mod_add_div (x.c.toNat * 2 ^ k) (2 ^ 64)
  have hd := Nat.mod_add_div (x.d.toNat * 2 ^ k) (2 ^ 64)
  simp only [Nat.add_mul, Nat.mul_assoc]
  omega

theorem toNat_bitsDown (hpos : 0 < k) (x : Word256) :
    (bitsDown (UInt64.ofNat k) x).toNat = x.toNat / 2 ^ k := by
  have hrest : UInt64.ofNat k = 64 - UInt64.ofNat (64 - k) := by
    rw [UInt64.ofNat_sub hk.le]
    exact (sub_sub_cancel _ _).symm
  have hwidth : (2 : Nat) ^ 64 = 2 ^ k * 2 ^ (64 - k) := (pow_mul_pow_sub 2 hk.le).symm
  rw [hrest, toNat_bitsDown_rest (by omega) (by omega), hwidth,
    Nat.mul_div_mul_right _ _ (Nat.two_pow_pos _)]

end Bits

/-- A shift to the left multiplies by a power of two and drops what leaves the word. -/
theorem toNat_shiftLeft (x : Word256) (s : Nat) :
    (x.shiftLeft s).toNat = x.toNat * 2 ^ s % 2 ^ 256 := by
  unfold shiftLeft
  by_cases hall : 256 ≤ s
  · have hdvd : 2 ^ 256 ∣ x.toNat * 2 ^ s := (pow_dvd_pow 2 hall).mul_left _
    rw [if_pos hall, Nat.mod_eq_zero_of_dvd hdvd]
    rfl
  · rw [if_neg hall]
    dsimp only
    by_cases hwhole : s % 64 = 0
    · rw [if_pos hwhole, toNat_limbsUp, show 64 * (s / 64) = s by omega]
    · rw [if_neg hwhole, toNat_bitsUp (Nat.mod_lt s (by decide)) (Nat.pos_of_ne_zero hwhole),
        toNat_limbsUp, Nat.mod_mul_mod, Nat.mul_assoc, ← pow_add, Nat.div_add_mod]

/-- A shift to the right divides by a power of two. -/
theorem toNat_shiftRight (x : Word256) (s : Nat) : (x.shiftRight s).toNat = x.toNat / 2 ^ s := by
  unfold shiftRight
  by_cases hall : 256 ≤ s
  · have hlt : x.toNat < 2 ^ s := x.toNat_lt.trans_le (Nat.pow_le_pow_right (by decide) hall)
    rw [if_pos hall, Nat.div_eq_of_lt hlt]
    rfl
  · rw [if_neg hall]
    dsimp only
    by_cases hwhole : s % 64 = 0
    · rw [if_pos hwhole, toNat_limbsDown, show 64 * (s / 64) = s by omega]
    · rw [if_neg hwhole, toNat_bitsDown (Nat.mod_lt s (by decide)) (Nat.pos_of_ne_zero hwhole),
        toNat_limbsDown, Nat.div_div_eq_div_mul, ← pow_add, Nat.div_add_mod]

/-! ## Comparison -/

/-- The higher digits of two numbers decide which is greater, unless they are equal. -/
theorem compare_digits {base low low' high high' : Nat} (hlow : low < base) (hlow' : low' < base) :
    compare (low + base * high) (low' + base * high') =
      (compare high high').then (compare low low') := by
  rcases Nat.lt_trichotomy high high' with hless | rfl | hgreater
  · have hmul : base * (high + 1) ≤ base * high' := Nat.mul_le_mul_left base hless
    rw [Nat.mul_succ] at hmul
    rw [Nat.compare_eq_lt.2 hless, Nat.compare_eq_lt.2 (by omega)]
    rfl
  · simp [Nat.compare_eq_ite_lt]
  · have hmul : base * (high' + 1) ≤ base * high := Nat.mul_le_mul_left base hgreater
    rw [Nat.mul_succ] at hmul
    rw [Nat.compare_eq_gt.2 hgreater, Nat.compare_eq_gt.2 (by omega)]
    rfl

theorem compare_limb (limb limb' : UInt64) :
    compare limb limb' = compare limb.toNat limb'.toNat := by
  show compareOfLessAndEq limb limb' = compareOfLessAndEq limb.toNat limb'.toNat
  simp only [compareOfLessAndEq, UInt64.lt_iff_toNat_lt, UInt64.toNat_inj]

/-- Words are compared as the numbers that they stand for. -/
theorem cmp_eq_compare (x y : Word256) : x.cmp y = compare x.toNat y.toNat := by
  unfold toNat cmp
  rw [compare_digits x.a.toNat_lt y.a.toNat_lt, compare_digits x.b.toNat_lt y.b.toNat_lt,
    compare_digits x.c.toNat_lt y.c.toNat_lt]
  simp only [compare_limb, Ordering.then_assoc]

/-! ## Hashes -/

theorem toNat_ofHash (h : Hash256) : (ofHash h).toNat = h.toNat := by
  have hlimb : ∀ bs : Bytes, (UInt64.ofNat (Bytes.toNatLe (bs.take 8))).toNat =
      Bytes.toNatLe (bs.take 8) := by
    intro bs
    have hlt := Bytes.toNatLe_lt (bs.take 8)
    have hpow : 256 ^ (bs.take 8).length ≤ 256 ^ 8 :=
      Nat.pow_le_pow_right (by decide) (List.length_take_le 8 bs)
    exact UInt64.toNat_ofNat_of_lt' (hlt.trans_le hpow)
  have hsplit : ∀ n, n + 8 ≤ 32 → Bytes.toNatLe (h.bytes.drop n) =
      Bytes.toNatLe ((h.bytes.drop n).take 8) + 256 ^ 8 * Bytes.toNatLe (h.bytes.drop (n + 8)) := by
    intro n hn
    have hlen : 8 ≤ (h.bytes.drop n).length := by
      rw [List.length_drop, h.size]
      omega
    rw [← List.drop_drop, Bytes.toNatLe_take_add_drop hlen]
  have hlast : h.bytes.drop 32 = [] := List.drop_eq_nil_of_le h.size.le
  have h0 := hsplit 0 (by decide)
  have h1 := hsplit 8 (by decide)
  have h2 := hsplit 16 (by decide)
  have h3 := hsplit 24 (by decide)
  rw [List.drop_zero] at h0
  simp only [hlast] at h3
  simp only [Hash256.toNat, toNat, ofHash, hlimb, Nat.mul_zero, Nat.mul_one, List.drop_zero]
  rw [h0, h1, h2, h3]
  simp [Bytes.toNatLe]

theorem toNat_toHash (x : Word256) : x.toHash.toNat = x.toNat := by
  have hlimb : ∀ limb : UInt64, Bytes.toNatLe (Bytes.ofNatLe 8 limb.toNat) = limb.toNat := by
    intro limb
    rw [Bytes.toNatLe_ofNatLe]
    exact Nat.mod_eq_of_lt limb.toNat_lt
  simp only [Hash256.toNat, toHash, List.flatMap_cons, List.flatMap_nil, Bytes.toNatLe_append,
    Bytes.length_ofNatLe, hlimb, toNat]
  simp [Bytes.toNatLe]

/-- Words are integers of 256 bits: a shift to the left multiplies by a power of two modulo 2^256, a
shift to the right divides by a power of two and drops the remainder, and words are compared as the
integers are. A hash is read as the integer that it spells, least significant byte first, and reading
and writing hashes are inverse to each other. -/
theorem arithmetic_exact (x y : Word256) (s : Nat) (h : Hash256) :
    (x.shiftLeft s).toNat = x.toNat * 2 ^ s % 2 ^ 256 ∧
      (x.shiftRight s).toNat = x.toNat / 2 ^ s ∧
      x.cmp y = compare x.toNat y.toNat ∧
      (ofHash h).toNat = h.toNat ∧ ofHash x.toHash = x ∧ (ofHash h).toHash = h := by
  refine ⟨toNat_shiftLeft x s, toNat_shiftRight x s, cmp_eq_compare x y, toNat_ofHash h, ?_, ?_⟩
  · rw [← toNat_inj, toNat_ofHash, toNat_toHash]
  · rw [← Hash256.toNat_inj, toNat_toHash, toNat_ofHash]

/-- A bit at the top of a limb is carried into the next one and back. -/
example :
    (ofUInt64 0x8000000000000001).shiftLeft 65 = ⟨0, 2, 1, 0⟩ ∧
      (⟨0, 2, 1, 0⟩ : Word256).shiftRight 65 = ofUInt64 0x8000000000000001 := by
  decide

end Word256

end ChainRules
