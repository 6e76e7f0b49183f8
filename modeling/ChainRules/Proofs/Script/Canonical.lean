import ChainRules.Proofs.Script.Numbers

/-!
# Canonical numbers

A byte string that spells a number carries its sign in the highest bit of the last byte, and the rest
is its magnitude. It is the shortest form of its number exactly if no byte can be spared: without the
last one either magnitude would be lost or the sign would have no bit of its own. Read as a truth
value, it is true exactly if the number is not zero.
-/

namespace ChainRules.Script

namespace Number

variable (below : Bytes) (last : UInt8)

/-- What the sign bit of a byte string counts, if there are `k` bytes below the last one. -/
theorem two_pow_signBit (k : Nat) : 2 ^ (8 * (k + 1) - 1) = 256 ^ k * 128 := by
  rw [show 8 * (k + 1) - 1 = 8 * k + 7 by omega, pow_add, pow_mul]
  rfl

/-- The magnitude is what the bytes below the last one spell together with its seven low bits. -/
theorem natAbs_value_concat :
    (value (below ++ [last])).natAbs =
      below.toNatLe + 256 ^ below.length * (last.toNat % 128) := by
  have hbelow := below.toNatLe_lt
  unfold value
  simp only [Nat.one_shiftLeft, List.length_append, List.length_singleton,
    two_pow_signBit, Bytes.toNatLe_concat]
  by_cases hpositive : last.toNat < 128
  · have hle : 256 ^ below.length * (last.toNat + 1) ≤ 256 ^ below.length * 128 :=
      Nat.mul_le_mul_left _ hpositive
    rw [Nat.mul_succ] at hle
    rw [if_pos (by omega), Int.natAbs_natCast, Nat.mod_eq_of_lt hpositive]
  · have hlast : last.toNat = 128 + last.toNat % 128 := by
      have hbyte := last.toNat_lt
      omega
    have hsplit : 256 ^ below.length * last.toNat =
        256 ^ below.length * 128 + 256 ^ below.length * (last.toNat % 128) := by
      rw [← Nat.mul_add, ← hlast]
    rw [if_neg (by omega), Int.natAbs_neg, Int.natAbs_natCast]
    omega

theorem value_concat_eq_zero_iff :
    value (below ++ [last]) = 0 ↔ below.toNatLe = 0 ∧ last.toNat % 128 = 0 := by
  rw [← Int.natAbs_eq_zero, natAbs_value_concat, Nat.add_eq_zero_iff, Nat.mul_eq_zero]
  simp

theorem and_low_ne_zero_iff : last &&& 0x7f ≠ 0 ↔ last.toNat % 128 ≠ 0 := by
  revert last
  decide +kernel

theorem and_high_ne_zero_iff : last &&& 0x80 ≠ 0 ↔ 128 ≤ last.toNat := by
  revert last
  decide +kernel

/-! ## Shortest forms -/

/-- No byte can be spared: there is none, or the last one holds more than the sign, or it holds the
sign because the bit for it below is taken. -/
def IsTight (bs : Bytes) : Prop :=
  bs = [] ∨ (∃ last ∈ bs.getLast?, last &&& 0x7f ≠ 0) ∨
    ∃ next ∈ bs.dropLast.getLast?, next &&& 0x80 ≠ 0

theorem length_encode_eq_zero_iff {n : Int} : (encode n).length = 0 ↔ n = 0 := by
  rw [length_encode]
  refine ⟨fun h => ?_, fun h => by rw [h]; rfl⟩
  by_contra hne
  exact (width_pos (Int.natAbs_ne_zero.2 hne)).ne' h

/-- A form is the shortest one unless that has fewer bytes. -/
theorem encode_value_eq_iff {bs : Bytes} :
    encode (value bs) = bs ↔ ¬(encode (value bs)).length < bs.length := by
  refine ⟨fun h => ?_, fun h => (eq_encode_value (Nat.le_of_not_lt h)).symm⟩
  rw [h]
  exact Nat.lt_irrefl _

theorem isTight_singleton_iff : IsTight [last] ↔ last.toNat % 128 ≠ 0 := by
  rw [← and_low_ne_zero_iff]
  simp [IsTight]

theorem isTight_concat_concat_iff (next : UInt8) :
    IsTight (below ++ [next] ++ [last]) ↔ last.toNat % 128 ≠ 0 ∨ 128 ≤ next.toNat := by
  rw [← and_low_ne_zero_iff, ← and_high_ne_zero_iff]
  simp [IsTight]

/-- The last byte can be spared if it holds at most the sign and there is a bit for that below. -/
theorem natAbs_value_lt_iff (next : UInt8) :
    (value (below ++ [next] ++ [last])).natAbs < 2 ^ (8 * (below.length + 1) - 1) ↔
      last.toNat % 128 = 0 ∧ next.toNat < 128 := by
  have hbelow := below.toNatLe_lt
  rw [natAbs_value_concat, Bytes.toNatLe_concat, List.length_append, List.length_singleton,
    two_pow_signBit, pow_succ, Nat.mul_assoc]
  constructor
  · intro hlt
    have hlast : last.toNat % 128 = 0 := by
      by_contra hne
      have hle : 256 ^ below.length * 128 ≤ 256 ^ below.length * (256 * (last.toNat % 128)) :=
        Nat.mul_le_mul_left _ (by omega)
      omega
    refine ⟨hlast, ?_⟩
    have hnext : 256 ^ below.length * next.toNat < 256 ^ below.length * 128 := by omega
    exact Nat.lt_of_mul_lt_mul_left hnext
  · rintro ⟨hlast, hnext⟩
    have hle : 256 ^ below.length * (next.toNat + 1) ≤ 256 ^ below.length * 128 :=
      Nat.mul_le_mul_left _ hnext
    rw [Nat.mul_succ] at hle
    rw [hlast]
    omega

/-- A byte string is the shortest form of the number that it spells if and only if no byte can be
spared. -/
theorem encode_value_eq_iff_isTight (bs : Bytes) : encode (value bs) = bs ↔ IsTight bs := by
  induction bs using List.reverseRecOn with
  | nil => exact iff_of_true rfl (.inl rfl)
  | append_singleton below last _ =>
    rw [encode_value_eq_iff, List.length_append, List.length_singleton, Nat.lt_succ_iff]
    induction below using List.reverseRecOn with
    | nil =>
      rw [List.length_nil, Nat.le_zero, length_encode_eq_zero_iff, value_concat_eq_zero_iff,
        List.nil_append, isTight_singleton_iff]
      simp [Bytes.toNatLe]
    | append_singleton below next _ =>
      rw [length_encode_le_iff (by simp), isTight_concat_concat_iff, List.length_append,
        List.length_singleton, natAbs_value_lt_iff]
      omega

end Number

/-! ## Truth values -/

namespace Item

theorem isTrue_cons (b : UInt8) {rest : Item} (h : rest ≠ []) :
    isTrue (b :: rest) = (decide (b ≠ 0) || isTrue rest) := by
  cases rest with
  | nil => exact absurd rfl h
  | cons c rest => rfl

theorem isTrue_concat_iff (below : Bytes) (last : UInt8) :
    isTrue (below ++ [last]) = true ↔ below.toNatLe ≠ 0 ∨ last.toNat % 128 ≠ 0 := by
  induction below with
  | nil =>
    revert last
    decide +kernel
  | cons b below ih =>
    have hrest : below ++ [last] ≠ [] := List.append_ne_nil_of_right_ne_nil _ (List.cons_ne_nil _ _)
    have hb : b ≠ 0 ↔ b.toNat ≠ 0 := by rw [ne_eq, ← UInt8.toNat_inj]; rfl
    rw [List.cons_append, isTrue_cons b hrest, Bool.or_eq_true, decide_eq_true_iff, ih, hb,
      Bytes.toNatLe]
    omega

/-- An item counts as true if and only if the number that it spells is not zero. -/
theorem isTrue_iff_value_ne_zero (item : Item) : item.isTrue = true ↔ Number.value item ≠ 0 := by
  induction item using List.reverseRecOn with
  | nil => decide
  | append_singleton below last _ =>
    rw [isTrue_concat_iff, ne_eq (Number.value _), Number.value_concat_eq_zero_iff, not_and_or]

end Item

namespace Number

/-- Numbers of at most eight bytes: writing a number and reading it back keeps it, and the number of
its bytes is the least that leave a bit for the sign. Every byte string spells a number that is not
written longer, is its written form exactly if no byte can be spared, and counts as true exactly if
the number is not zero. -/
theorem numbers_canonical (n : Int) (hn : n.natAbs < 2 ^ 63) (bs : Bytes) (hbs : bs.length ≤ 8) :
    decode 8 (encode n) = .ok n ∧
      (∀ k, 0 < k → ((encode n).length ≤ k ↔ n.natAbs < 2 ^ (8 * k - 1))) ∧
      ∃ m, decode 8 bs = .ok m ∧ m.natAbs < 2 ^ 63 ∧ (encode m).length ≤ bs.length ∧
        (encode m = bs ↔ IsTight bs) ∧ (Item.isTrue bs = true ↔ m ≠ 0) := by
  have hshort : (encode n).length ≤ 8 := (length_encode_le_iff (by decide)).2 hn
  have hrange : (value bs).natAbs < 2 ^ 63 :=
    (natAbs_value_lt bs).trans_le (Nat.pow_le_pow_right (by decide) (by omega))
  refine ⟨?_, fun k hk => length_encode_le_iff hk, value bs, ?_, hrange,
    length_encode_value_le bs, encode_value_eq_iff_isTight bs, Item.isTrue_iff_value_ne_zero bs⟩
  · rw [decode, if_neg (Nat.not_lt.2 hshort), value_encode]
  · rw [decode, if_neg (Nat.not_lt.2 hbs)]

/-- The least number of eight bytes is read back, and a zero with a sign and a byte to spare is false
and not the written form of zero. -/
theorem numbers_canonical_spare_zero :
    decode 8 (encode (-(2 ^ 63 - 1))) = .ok (-(2 ^ 63 - 1)) ∧ decode 8 [0x00, 0x80] = .ok 0 ∧
      encode 0 ≠ [0x00, 0x80] ∧ ¬Item.isTrue [0x00, 0x80] = true := by
  obtain ⟨hread, -, m, hm, -, -, htight, htrue⟩ :=
    numbers_canonical (-(2 ^ 63 - 1)) (by decide) [0x00, 0x80] (by decide)
  obtain rfl : m = 0 := by
    have hzero : decode 8 [0x00, 0x80] = .ok 0 := by decide
    rw [hm, Except.ok.injEq] at hzero
    exact hzero
  have hspare : ¬IsTight [0x00, 0x80] := fun h =>
    absurd ((isTight_concat_concat_iff [] 0x80 0x00).1 h) (by decide)
  exact ⟨hread, hm, fun h => hspare (htight.1 h), fun h => htrue.1 h rfl⟩

end Number

end ChainRules.Script
