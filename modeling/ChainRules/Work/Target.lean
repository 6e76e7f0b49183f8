import ChainRules.Chain.Violation
import ChainRules.Codec.Block
import ChainRules.Work.Word256

/-!
# Proof of work

The bits of a header are a target in compact form: a mantissa of 23 bits, a sign bit and an exponent to
the base 256. A header shows enough work if its id, as a number, is below the target.
-/

namespace ChainRules

/-- The target that compact bits spell, and why it may be unusable. -/
structure Target where
  value : Word256
  /-- The sign bit is set on a mantissa that is not zero. -/
  negative : Bool
  /-- The mantissa does not fit below 2^256. -/
  overflow : Bool
  deriving DecidableEq

namespace Target

/-- Whether some hash can be below the target. -/
def isUsable (t : Target) : Bool :=
  !t.negative && !t.overflow && !t.value.isZero

/-- Expands compact bits. For exponents up to three the low bytes of the mantissa are dropped before
it is looked at. -/
def ofBits (bits : UInt32) : Target :=
  let exponent := bits.toNat >>> 24
  let mantissa :=
    if exponent ≤ 3 then (bits.toNat % 0x800000) >>> (8 * (3 - exponent)) else bits.toNat % 0x800000
  let unit := Word256.ofUInt64 (UInt64.ofNat mantissa)
  { value := if exponent ≤ 3 then unit else unit.shiftLeft (8 * (exponent - 3))
    negative := mantissa ≠ 0 && bits.toNat.testBit 23
    overflow := mantissa ≠ 0 &&
      (34 < exponent || (0xff < mantissa && 33 < exponent) || (0xffff < mantissa && 32 < exponent)) }

/-- The bits of the network's easiest target. -/
def easiestBits : UInt32 := 0x207fffff

/-- The network's easiest target. -/
def easiest : Target :=
  ofBits easiestBits

end Target

/-- Whether the id of a header is below its target; a target that no hash can meet is a violation. -/
def Header.hasWork (h : Header) : Except Violation Bool :=
  let target := Target.ofBits h.bits
  if target.isUsable then .ok ((Word256.ofHash h.id).cmp target.value = .lt)
  else .error (.unusableTarget h.bits)

end ChainRules
