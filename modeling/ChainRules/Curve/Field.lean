/-!
# The prime fields of secp256k1

Coordinates are residues modulo the field prime, scalars residues modulo the order of the group. Both
moduli are prime, so a residue is inverted by raising it to the modulus less two.
-/

namespace ChainRules.Curve

/-- The field prime: 2^256 - 2^32 - 977. -/
def fieldPrime : Nat := 0xfffffffffffffffffffffffffffffffffffffffffffffffffffffffefffffc2f

/-- The order of the group. -/
def groupOrder : Nat := 0xfffffffffffffffffffffffffffffffebaaedce6af48a03bbfd25e8cd0364141

/-- A coordinate. -/
abbrev Coord := Fin fieldPrime

/-- The residue of a number modulo the field prime. -/
def Coord.ofNat (n : Nat) : Coord :=
  ⟨n % fieldPrime, Nat.mod_lt n (by decide)⟩

instance (n : Nat) : OfNat Coord n := ⟨Coord.ofNat n⟩

/-- A scalar. -/
abbrev Scalar := Fin groupOrder

/-- The residue of a number modulo the group order. -/
def Scalar.ofNat (n : Nat) : Scalar :=
  ⟨n % groupOrder, Nat.mod_lt n (by decide)⟩

instance (n : Nat) : OfNat Scalar n := ⟨Scalar.ofNat n⟩

/-- A residue raised to a power below 2^256, by squaring along the bits of the exponent; `one` is the
residue one. -/
def power {n : Nat} (one x : Fin n) (e : Nat) : Fin n :=
  (List.range 256).foldr (fun i y => if e.testBit i then y * y * x else y * y) one

/-- The inverse of a coordinate; zero goes to zero. -/
def Coord.inverse (x : Coord) : Coord :=
  power 1 x (fieldPrime - 2)

/-- The inverse of a scalar; zero goes to zero. -/
def Scalar.inverse (x : Scalar) : Scalar :=
  power 1 x (groupOrder - 2)

/-- A square root, if there is one: the field prime is 3 modulo 4. -/
def Coord.squareRoot? (x : Coord) : Option Coord :=
  let y := power 1 x ((fieldPrime + 1) / 4)
  if y * y = x then some y else none

end ChainRules.Curve
