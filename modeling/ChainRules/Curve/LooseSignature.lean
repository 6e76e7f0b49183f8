import ChainRules.Bytes
import ChainRules.Curve.Field

/-!
# Signatures in loose form

A signature is a sequence of two integers, each with a tag and a length. The reader is lenient: it
ignores the length of the sequence, takes long lengths with needless zeros, reads integers without
sign and with any number of leading zeros, and ignores what follows.
-/

namespace ChainRules.Curve

/-- The two numbers of a signature. -/
structure EcdsaSignature where
  r : Scalar
  s : Scalar
  deriving DecidableEq

namespace LooseSignature

/-- Reads a given byte. -/
def expect (tag : UInt8) : Bytes → Option Bytes
  | [] => none
  | b :: rest => if b = tag then some rest else none

/-- Reads the length of the sequence and forgets it. -/
def skipLength : Bytes → Option Bytes
  | [] => none
  | b :: rest =>
    if b < 0x80 then some rest else (Bytes.split? (b.toNat - 0x80) rest).map Prod.snd

/-- Reads a length: a byte below 128, or the number of the bytes that spell it, of which at most seven
are left after leading zeros. -/
def readLength : Bytes → Option (Nat × Bytes)
  | [] => none
  | b :: rest =>
    if b < 0x80 then some (b.toNat, rest)
    else do
      let (field, rest) ← Bytes.split? (b.toNat - 0x80) rest
      let digits := field.dropWhile (· = 0)
      if 8 ≤ digits.length then none else some (Bytes.toNatBe digits, rest)

/-- Reads an integer: its digits without leading zeros. -/
def readInteger (bs : Bytes) : Option (Bytes × Bytes) := do
  let (size, rest) ← readLength (← expect 2 bs)
  let (digits, rest) ← rest.split? size
  return (digits.dropWhile (· = 0), rest)

/-- A number from its digits, if it is a scalar. -/
def scalar? (digits : Bytes) : Option Scalar :=
  if 32 < digits.length then none
  else
    let n := digits.toNatBe
    if h : n < groupOrder then some ⟨n, h⟩ else none

/-- The signature that a byte string spells. A number that is no scalar makes both zero, and a zero
never verifies. -/
def parse? (bs : Bytes) : Option EcdsaSignature := do
  let body ← skipLength (← expect 0x30 bs)
  let (r, rest) ← readInteger body
  let (s, _) ← readInteger rest
  match scalar? r, scalar? s with
  | some r, some s => return ⟨r, s⟩
  | _, _ => return ⟨0, 0⟩

end LooseSignature

end ChainRules.Curve
