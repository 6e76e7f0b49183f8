import Mathlib
import ChainRules.Hash256

/-!
# Integers in byte strings

Writing a number and reading it back keeps what fits in the width, every byte string spells a number
below the power of 256 that its length gives, and a string spells what its pieces do, one above the
other. Strings of one length are told apart by what they spell.
-/

namespace ChainRules

namespace Bytes

theorem toNatLe_lt (bs : Bytes) : toNatLe bs < 256 ^ bs.length := by
  induction bs with
  | nil => simp [toNatLe]
  | cons b bs ih =>
    have hb := b.toNat_lt
    simp only [toNatLe, List.length_cons, pow_succ]
    omega

/-- Writing a number and reading it back keeps what fits in the width. -/
theorem toNatLe_ofNatLe (width n : Nat) : toNatLe (ofNatLe width n) = n % 256 ^ width := by
  induction width generalizing n with
  | zero => simp [ofNatLe, toNatLe, Nat.mod_one]
  | succ width ih =>
    have hb : (UInt8.ofNat n).toNat = n % 256 := UInt8.toNat_ofNat'
    rw [ofNatLe, toNatLe, ih, hb, pow_succ, Nat.mul_comm (256 ^ width) 256, Nat.mod_mul]

theorem toNatLe_append (bs cs : Bytes) :
    toNatLe (bs ++ cs) = toNatLe bs + 256 ^ bs.length * toNatLe cs := by
  induction bs with
  | nil => simp [toNatLe]
  | cons b bs ih =>
    simp only [List.cons_append, toNatLe, ih, List.length_cons, pow_succ]
    ring

theorem toNatLe_concat (bs : Bytes) (b : UInt8) :
    toNatLe (bs ++ [b]) = toNatLe bs + 256 ^ bs.length * b.toNat := by
  rw [toNatLe_append]
  simp [toNatLe]

/-- The first bytes of a string and those behind them spell its number together. -/
theorem toNatLe_take_add_drop {n : Nat} {bs : Bytes} (h : n ≤ bs.length) :
    toNatLe (bs.take n) + 256 ^ n * toNatLe (bs.drop n) = toNatLe bs := by
  have happend := toNatLe_append (bs.take n) (bs.drop n)
  rw [List.take_append_drop, List.length_take_of_le h] at happend
  exact happend.symm

/-- A number that fits in the width is read back as it was written. -/
theorem toNatLe_ofNatLe_of_lt {width n : Nat} (h : n < 256 ^ width) :
    toNatLe (ofNatLe width n) = n := by
  rw [toNatLe_ofNatLe, Nat.mod_eq_of_lt h]

/-- The four bytes of a word tell it apart. -/
theorem ofNatLe_word32_inj {v w : UInt32} : ofNatLe 4 v.toNat = ofNatLe 4 w.toNat ↔ v = w := by
  refine ⟨fun heq => ?_, fun heq => congrArg (ofNatLe 4 ·.toNat) heq⟩
  have hvalue := congrArg toNatLe heq
  rw [toNatLe_ofNatLe_of_lt v.toNat_lt, toNatLe_ofNatLe_of_lt w.toNat_lt] at hvalue
  exact UInt32.toNat_inj.1 hvalue

/-- The number that four bytes spell is a word with these bytes. -/
theorem ofNatLe_word32 {bs : Bytes} (h : bs.length = 4) :
    ofNatLe 4 (UInt32.ofNat bs.toNatLe).toNat = bs := by
  have hlt := toNatLe_lt bs
  rw [h] at hlt
  rw [UInt32.toNat_ofNat_of_lt' hlt, ← h, ofNatLe_toNatLe]

end Bytes

/-- Hashes are told apart by the numbers that they spell. -/
theorem Hash256.toNat_inj {g h : Hash256} : g.toNat = h.toNat ↔ g = h := by
  refine ⟨fun heq => ?_, congrArg toNat⟩
  have hg := Bytes.ofNatLe_toNatLe g.bytes
  have hh := Bytes.ofNatLe_toNatLe h.bytes
  rw [g.size] at hg
  rw [h.size] at hh
  apply Hash256.ext
  rw [← hg, ← hh]
  exact congrArg (Bytes.ofNatLe 32) heq

end ChainRules
