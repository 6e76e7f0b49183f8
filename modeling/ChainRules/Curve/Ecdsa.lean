import ChainRules.Curve.LooseSignature
import ChainRules.Curve.PublicKey
import ChainRules.Hash256

/-!
# Elliptic-curve signatures

A signature (r, s) of a digest e by a key Q holds if r and s are not zero and the point
(e/s) • G + (r/s) • Q has an x-coordinate that is r modulo the group order.
-/

namespace ChainRules.Curve

/-- Whether a signature of a number by a key holds. -/
def EcdsaSignature.holds (sig : EcdsaSignature) (key : Affine) (e : Scalar) : Bool :=
  if sig.r = 0 ∨ sig.s = 0 then false
  else
    let w := Scalar.inverse sig.s
    let point := Point.combine (e * w) (.ofAffine generator) (sig.r * w) (.ofAffine key)
    match point.affineX? with
    | some x => Scalar.ofNat x.val = sig.r
    | none => false

/-- Whether a written signature of a digest by a written key can be read and holds. -/
def verifyEcdsa (signature key : Bytes) (digest : Hash256) : Bool :=
  match Affine.ofKey? key, LooseSignature.parse? signature with
  | some key, some sig => sig.holds key (Scalar.ofNat digest.bytes.toNatBe)
  | _, _ => false

end ChainRules.Curve
