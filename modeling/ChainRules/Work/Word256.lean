import ChainRules.Hash256

/-!
# 256-bit words

Unsigned integers of 256 bits in four limbs of 64 bits. A shift moves whole limbs first and then the
bits that are left, carrying between neighbours; what leaves the word is lost.
-/

namespace ChainRules

/-- A 256-bit unsigned integer: its limbs, least significant first. -/
structure Word256 where
  (a b c d : UInt64)
  deriving DecidableEq

namespace Word256

/-- The word zero. -/
def zero : Word256 := ⟨0, 0, 0, 0⟩

/-- A 64-bit number as a word. -/
def ofUInt64 (n : UInt64) : Word256 := ⟨n, 0, 0, 0⟩

/-- The number that the word stands for. -/
def toNat (x : Word256) : Nat :=
  x.a.toNat + 0x10000000000000000 *
    (x.b.toNat + 0x10000000000000000 * (x.c.toNat + 0x10000000000000000 * x.d.toNat))

/-- Whether all limbs are zero. -/
def isZero (x : Word256) : Bool :=
  x.a = 0 && x.b = 0 && x.c = 0 && x.d = 0

/-- The word moved up by whole limbs. -/
def limbsUp : Nat → Word256 → Word256
  | 0, x => x
  | n + 1, x => limbsUp n ⟨0, x.a, x.b, x.c⟩

/-- The word moved down by whole limbs. -/
def limbsDown : Nat → Word256 → Word256
  | 0, x => x
  | n + 1, x => limbsDown n ⟨x.b, x.c, x.d, 0⟩

/-- The word moved up by `0 < k < 64` bits. -/
def bitsUp (k : UInt64) (x : Word256) : Word256 :=
  ⟨x.a <<< k, x.b <<< k ||| x.a >>> (64 - k), x.c <<< k ||| x.b >>> (64 - k),
    x.d <<< k ||| x.c >>> (64 - k)⟩

/-- The word moved down by `0 < k < 64` bits. -/
def bitsDown (k : UInt64) (x : Word256) : Word256 :=
  ⟨x.a >>> k ||| x.b <<< (64 - k), x.b >>> k ||| x.c <<< (64 - k),
    x.c >>> k ||| x.d <<< (64 - k), x.d >>> k⟩

/-- The word shifted to the left. -/
def shiftLeft (x : Word256) (s : Nat) : Word256 :=
  if 256 ≤ s then zero
  else
    let y := limbsUp (s / 64) x
    if s % 64 = 0 then y else bitsUp (UInt64.ofNat (s % 64)) y

/-- The word shifted to the right. -/
def shiftRight (x : Word256) (s : Nat) : Word256 :=
  if 256 ≤ s then zero
  else
    let y := limbsDown (s / 64) x
    if s % 64 = 0 then y else bitsDown (UInt64.ofNat (s % 64)) y

/-- Compares the limbs, most significant first. -/
def cmp (x y : Word256) : Ordering :=
  (compare x.d y.d).then ((compare x.c y.c).then ((compare x.b y.b).then (compare x.a y.a)))

/-- Reads a hash, least significant byte first. -/
def ofHash (h : Hash256) : Word256 :=
  let limb (i : Nat) := UInt64.ofNat (Bytes.toNatLe ((h.bytes.drop (8 * i)).take 8))
  ⟨limb 0, limb 1, limb 2, limb 3⟩

/-- The bytes of the word, least significant first. -/
def toHash (x : Word256) : Hash256 :=
  ⟨[x.a, x.b, x.c, x.d].flatMap fun limb => Bytes.ofNatLe 8 limb.toNat, by simp⟩

end Word256

end ChainRules
