import ChainRules.Curve.Ecdsa
import ChainRules.Script.Machine
import ChainRules.Signature.Preimage

/-!
# Signature checkers

A checker answers the questions that scripts ask. In a spend it checks the signature against the digest
of the spending transaction; without a transaction no signature holds.
-/

namespace ChainRules.Signature

/-- The checker for scripts that spend nothing. -/
def noChecker : Script.Checker :=
  fun _ _ _ => false

/-- The checker for the input of a transaction at `index`. The last byte of a signature is its hash
type. -/
def inputChecker (tx : Transaction) (index : Nat) : Script.Checker :=
  fun signature key code =>
    match signature.getLast? with
    | none => false
    | some t => Curve.verifyEcdsa signature.dropLast key (digest tx index code t.toUInt32)

end ChainRules.Signature
