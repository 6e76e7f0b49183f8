/-!
# Byte strings

A byte string is a list of bytes, first byte first. Integers of a fixed width enter and leave it
least significant byte first.
-/

namespace ChainRules

/-- A string of bytes, first byte first. -/
abbrev Bytes := List UInt8

namespace Bytes

/-- The `width` low bytes of `n`, least significant first. -/
def ofNatLe : (width : Nat) → (n : Nat) → Bytes
  | 0, _ => []
  | width + 1, n => UInt8.ofNat n :: ofNatLe width (n / 256)

/-- The number that a byte string spells, least significant byte first. -/
def toNatLe : Bytes → Nat
  | [] => 0
  | b :: bs => b.toNat + 256 * toNatLe bs

/-- The `width` low bytes of `n`, most significant first. -/
def ofNatBe (width n : Nat) : Bytes :=
  (ofNatLe width n).reverse

/-- The number that a byte string spells, most significant byte first. -/
def toNatBe (bs : Bytes) : Nat :=
  bs.foldl (fun n b => 256 * n + b.toNat) 0

/-- Whether at least `n` bytes are there, found without walking past the `n`-th. -/
def covers : (n : Nat) → Bytes → Bool
  | 0, _ => true
  | _ + 1, [] => false
  | n + 1, _ :: bs => covers n bs

/-- The first `n` bytes and the rest, if there are that many. -/
def split? : (n : Nat) → Bytes → Option (Bytes × Bytes)
  | 0, bs => some ([], bs)
  | _ + 1, [] => none
  | n + 1, b :: bs => (split? n bs).map fun (front, rest) => (b :: front, rest)

/-- The first `count` pieces of `size` bytes each. -/
def pieces (size : Nat) : (count : Nat) → Bytes → List Bytes
  | 0, _ => []
  | count + 1, bs => bs.take size :: pieces size count (bs.drop size)

@[simp] theorem length_ofNatLe (width n : Nat) : (ofNatLe width n).length = width := by
  induction width generalizing n with
  | zero => rfl
  | succ width ih => simp [ofNatLe, ih]

/-- Every byte string is the written form of the number it spells. -/
theorem ofNatLe_toNatLe (bs : Bytes) : ofNatLe bs.length (toNatLe bs) = bs := by
  induction bs with
  | nil => rfl
  | cons b bs ih =>
    have hb := b.toNat_lt
    have hdiv : (b.toNat + 256 * toNatLe bs) / 256 = toNatLe bs := by omega
    have hmod : UInt8.ofNat (b.toNat + 256 * toNatLe bs) = b := by
      apply UInt8.toNat_inj.1
      rw [UInt8.toNat_ofNat']
      omega
    simp only [toNatLe, List.length_cons, ofNatLe, hdiv, hmod, ih]

theorem covers_iff (n : Nat) (bs : Bytes) : covers n bs = true ↔ n ≤ bs.length := by
  induction n generalizing bs with
  | zero => simp [covers]
  | succ n ih => cases bs <;> simp [covers, ih]

/-- A successful split loses nothing and its first part has the asked length. -/
theorem split?_eq_some_iff {n : Nat} {bs front rest : Bytes} :
    split? n bs = some (front, rest) ↔ bs = front ++ rest ∧ front.length = n := by
  induction n generalizing bs front with
  | zero =>
    simp only [split?, Option.some.injEq, Prod.mk.injEq, List.length_eq_zero_iff]
    constructor
    · rintro ⟨rfl, rfl⟩; simp
    · rintro ⟨rfl, rfl⟩; simp
  | succ n ih =>
    cases bs with
    | nil =>
      simp only [split?, reduceCtorEq, false_iff, not_and]
      intro h hn
      have := congrArg List.length h
      simp at this
      omega
    | cons b bs =>
      simp only [split?, Option.map_eq_some_iff, Prod.exists, Prod.mk.injEq]
      constructor
      · rintro ⟨f, r, h, rfl, rfl⟩
        obtain ⟨rfl, rfl⟩ := ih.1 h
        simp
      · rintro ⟨h, hn⟩
        cases front with
        | nil => simp at hn
        | cons f front =>
          simp only [List.cons_append, List.cons.injEq] at h
          obtain ⟨rfl, rfl⟩ := h
          exact ⟨front, rest, ih.2 ⟨rfl, by simpa using hn⟩, rfl, rfl⟩

/-- A split fails exactly when too few bytes are there. -/
theorem split?_eq_none_iff {n : Nat} {bs : Bytes} : split? n bs = none ↔ bs.length < n := by
  induction n generalizing bs with
  | zero => simp [split?]
  | succ n ih => cases bs <;> simp [split?, ih]

end Bytes

end ChainRules
