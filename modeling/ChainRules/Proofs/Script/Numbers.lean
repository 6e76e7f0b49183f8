import Mathlib
import ChainRules.Bytes.Lemmas
import ChainRules.Script.Instruction

/-!
# Sizes of numbers

How many bytes the shortest form of a number takes, that it is the shortest one to spell the number,
and how large the numbers are that operands and the results of numeric instructions stand for.
-/

namespace ChainRules.Script

namespace Number

theorem length_encode (n : Int) : (encode n).length = width n.natAbs :=
  Bytes.length_ofNatLe _ _

/-- So many bytes hold exactly the magnitudes that leave room for the sign bit. -/
theorem width_le_iff {k magnitude : Nat} (hk : 0 < k) :
    width magnitude ≤ k ↔ magnitude < 2 ^ (8 * k - 1) := by
  unfold width
  by_cases hzero : magnitude = 0
  · simp [hzero]
  · rw [if_neg hzero, ← Nat.log2_lt hzero]
    omega

theorem length_encode_le_iff {k : Nat} {n : Int} (hk : 0 < k) :
    (encode n).length ≤ k ↔ n.natAbs < 2 ^ (8 * k - 1) := by
  rw [length_encode, width_le_iff hk]

/-- The sign bit of a byte string is not part of the magnitude that it spells. -/
theorem natAbs_value_lt (bs : Bytes) : (value bs).natAbs < 2 ^ (8 * bs.length - 1) := by
  have hlt := bs.toNatLe_lt
  have hwhole : 256 ^ bs.length ≤ 2 * 2 ^ (8 * bs.length - 1) := by
    rw [show 256 = 2 ^ 8 from rfl, ← pow_mul, ← pow_succ']
    exact Nat.pow_le_pow_right (by omega) (by omega)
  unfold value
  simp only [Nat.one_shiftLeft]
  split
  · rename_i hsign
    simpa using hsign
  · rw [Int.natAbs_neg, Int.natAbs_natCast]
    omega

theorem width_pos {magnitude : Nat} (h : magnitude ≠ 0) : 0 < width magnitude := by
  unfold width
  rw [if_neg h]
  omega

/-- Magnitude and sign of a number stand apart in its shortest form. -/
theorem toNatLe_encode (n : Int) :
    (encode n).toNatLe = n.natAbs + if n < 0 then 2 ^ (8 * width n.natAbs - 1) else 0 := by
  by_cases hzero : n = 0
  · subst hzero
    rfl
  · have hpos := width_pos (Int.natAbs_ne_zero.2 hzero)
    have hfits := (width_le_iff hpos).1 (Nat.le_refl (width n.natAbs))
    have hdouble : 256 ^ width n.natAbs = 2 * 2 ^ (8 * width n.natAbs - 1) := by
      rw [show 256 = 2 ^ 8 from rfl, ← pow_mul, ← pow_succ']
      congr 1
      omega
    have hmod : ∀ k, k < 2 * 2 ^ (8 * width n.natAbs - 1) → k % 256 ^ width n.natAbs = k :=
      fun k hk => Nat.mod_eq_of_lt (hdouble ▸ hk)
    unfold encode
    simp only [Nat.one_shiftLeft]
    rw [Bytes.toNatLe_ofNatLe, hmod]
    split <;> omega

/-- Magnitude and sign of a number stand apart in every byte string that spells it. -/
theorem toNatLe_of_value {bs : Bytes} (h : value bs ≠ 0) :
    bs.toNatLe = (value bs).natAbs + if value bs < 0 then 2 ^ (8 * bs.length - 1) else 0 := by
  unfold value at h ⊢
  simp only [Nat.one_shiftLeft] at h ⊢
  split_ifs at h ⊢ <;> omega

/-- The shortest form of a number spells it. -/
theorem value_encode (n : Int) : value (encode n) = n := by
  by_cases hzero : n = 0
  · subst hzero
    rfl
  · have hpos := width_pos (Int.natAbs_ne_zero.2 hzero)
    have hfits := (width_le_iff hpos).1 (Nat.le_refl (width n.natAbs))
    unfold value
    rw [length_encode, toNatLe_encode]
    simp only [Nat.one_shiftLeft]
    split_ifs <;> omega

theorem length_encode_value_le (bs : Bytes) : (encode (value bs)).length ≤ bs.length := by
  cases bs with
  | nil => exact Nat.le_refl 0
  | cons b bs => exact (length_encode_le_iff (Nat.succ_pos _)).2 (natAbs_value_lt (b :: bs))

/-- A form that is no longer than the shortest one is the shortest one. -/
theorem eq_encode_value {bs : Bytes} (h : bs.length ≤ (encode (value bs)).length) :
    bs = encode (value bs) := by
  by_cases hzero : value bs = 0
  · rw [hzero] at h ⊢
    exact List.length_eq_zero_iff.1 (Nat.le_zero.1 h)
  · have hlen : (encode (value bs)).length = bs.length := (length_encode_value_le bs).antisymm h
    have hsame : (encode (value bs)).toNatLe = bs.toNatLe := by
      rw [toNatLe_encode, toNatLe_of_value hzero, ← length_encode, hlen]
    calc
      bs = Bytes.ofNatLe bs.length bs.toNatLe := (Bytes.ofNatLe_toNatLe bs).symm
      _ = Bytes.ofNatLe (encode (value bs)).length (encode (value bs)).toNatLe := by rw [hlen, hsame]
      _ = encode (value bs) := Bytes.ofNatLe_toNatLe _

/-- The byte string spells the number, and any other one that does is longer. -/
def IsShortest (bs : Bytes) (n : Int) : Prop :=
  value bs = n ∧ ∀ other, value other = n → other ≠ bs → bs.length < other.length

theorem isShortest_encode (n : Int) : IsShortest (encode n) n := by
  refine ⟨value_encode n, fun other hother hne => ?_⟩
  subst hother
  by_contra hle
  exact hne (eq_encode_value (Nat.le_of_not_lt hle))

theorem IsShortest.eq_encode {bs : Bytes} {n : Int} (h : IsShortest bs n) : bs = encode n := by
  obtain ⟨rfl, hshortest⟩ := h
  by_contra hne
  have hlt := hshortest _ (value_encode _) (Ne.symm hne)
  exact absurd (length_encode_value_le bs) (Nat.not_le.2 hlt)

end Number

/-- A numeric operand has at most four bytes. -/
theorem Item.natAbs_lt_of_number {item : Item} {n : Int} (h : item.number = .ok n) :
    n.natAbs < 2 ^ 31 := by
  unfold Item.number Number.decode at h
  split at h
  · cases h
  · rename_i hlen
    cases h
    have hfour : item.length ≤ 4 := Nat.le_of_not_lt hlen
    exact (Number.natAbs_value_lt item).trans_le (Nat.pow_le_pow_right (by omega) (by omega))

/-- The shortest form of a number is an operand for it, unless the number is too large. -/
theorem Item.number_encode_eq_ok_iff {k n : Int} :
    Item.number (Number.encode k) = .ok n ↔ k.natAbs < 2 ^ 31 ∧ n = k := by
  have hshort : (Number.encode k).length ≤ 4 ↔ k.natAbs < 2 ^ 31 :=
    Number.length_encode_le_iff (k := 4) (by omega)
  unfold Item.number Number.decode Number.operandSize
  rw [Number.value_encode, ← hshort]
  split
  · rename_i hlong
    simp [Nat.not_le.2 hlong]
  · rename_i hlen
    simp [Nat.le_of_not_lt hlen, eq_comm]

theorem natAbs_truth_le (p : Bool) : (truth p).natAbs ≤ 1 := by
  cases p <;> decide

/-- The value of a function of one operand fits into five bytes. -/
theorem UnaryOp.natAbs_eval_lt (f : UnaryOp) {n : Int} (hn : n.natAbs < 2 ^ 31) :
    (f.eval n).natAbs < 2 ^ 39 := by
  have htruth := fun p => Nat.lt_of_le_of_lt (natAbs_truth_le p) (show 1 < 2 ^ 39 by decide)
  cases f with
  | increment | decrement | negate | abs =>
    simp only [eval]
    omega
  | not | notZero => exact htruth _

/-- The value of a function of two operands fits into five bytes. -/
theorem BinaryOp.natAbs_eval_lt (f : BinaryOp) {a b : Int} (ha : a.natAbs < 2 ^ 31)
    (hb : b.natAbs < 2 ^ 31) : (f.eval a b).natAbs < 2 ^ 39 := by
  have htruth := fun p => Nat.lt_of_le_of_lt (natAbs_truth_le p) (show 1 < 2 ^ 39 by decide)
  cases f with
  | add | sub =>
    simp only [eval]
    omega
  | min | max =>
    simp only [eval]
    split <;> omega
  | boolAnd | boolOr | equal | notEqual | less | greater | lessOrEqual | greaterOrEqual =>
    exact htruth _

/-- The number that an opcode pushes by itself is small. -/
theorem natAbs_constant_le {op : Opcode} {n : Int}
    (h : Instruction.ofOpcode? op = some (.constant n)) : n.natAbs ≤ 16 := by
  have hall : ∀ op : Opcode, ∀ i ∈ Instruction.ofOpcode? op,
      (match i with
        | .constant n => decide (n.natAbs ≤ 16)
        | _ => true) = true := by
    decide +kernel
  simpa using hall op _ h

end ChainRules.Script
