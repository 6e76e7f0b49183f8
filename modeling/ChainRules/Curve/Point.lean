import ChainRules.Curve.Field

/-!
# Points of secp256k1

The curve is y² = x³ + 7. Points are computed with in projective coordinates, in which x and y stand
over z² and z³ and the neutral point has z = 0; this needs no division before the end.
-/

namespace ChainRules.Curve

/-- An affine point: a solution of the curve's equation. -/
structure Affine where
  x : Coord
  y : Coord
  onCurve : y * y = x * x * x + 7
  deriving DecidableEq

/-- A point in projective coordinates. -/
structure Point where
  x : Coord
  y : Coord
  z : Coord
  deriving DecidableEq

namespace Point

/-- The neutral point. -/
def neutral : Point :=
  ⟨1, 1, 0⟩

/-- An affine point in projective coordinates. -/
def ofAffine (p : Affine) : Point :=
  ⟨p.x, p.y, 1⟩

/-- Twice a point. -/
def double (p : Point) : Point :=
  if p.z = 0 ∨ p.y = 0 then neutral else
  let a := p.x * p.x
  let b := p.y * p.y
  let c := b * b
  let d := 2 * ((p.x + b) * (p.x + b) - a - c)
  let e := 3 * a
  let x := e * e - 2 * d
  ⟨x, e * (d - x) - 8 * c, 2 * p.y * p.z⟩

/-- The sum of two points. -/
def add (p q : Point) : Point :=
  if p.z = 0 then q
  else if q.z = 0 then p
  else
    let pz := p.z * p.z
    let qz := q.z * q.z
    let u := p.x * qz
    let s := p.y * q.z * qz
    let h := q.x * pz - u
    let r := q.y * p.z * pz - s
    if h = 0 then
      if r = 0 then p.double else neutral
    else
      let h2 := h * h
      let h3 := h * h2
      let v := u * h2
      let x := r * r - h3 - 2 * v
      ⟨x, r * (v - x) - s * h3, h * p.z * q.z⟩

/-- The affine x-coordinate, unless the point is neutral. -/
def affineX? (p : Point) : Option Coord :=
  if p.z = 0 then none
  else
    let w := Coord.inverse p.z
    some (p.x * (w * w))

/-- The combination `a • p + b • q`, by doubling along the bits of both scalars. -/
def combine (a : Scalar) (p : Point) (b : Scalar) (q : Point) : Point :=
  let both := p.add q
  (List.range 256).foldr (fun i sum =>
    let twice := sum.double
    match a.val.testBit i, b.val.testBit i with
    | false, false => twice
    | true, false => twice.add p
    | false, true => twice.add q
    | true, true => twice.add both) neutral

end Point

/-- The point whose multiples are the group. -/
def generator : Affine where
  x := .ofNat 0x79be667ef9dcbbac55a06295ce870b07029bfcdb2dce28d959f2815b16f81798
  y := .ofNat 0x483ada7726a3c4655da4fbfc0e1108a8fd17b448a68554199c47d08ffb10d4b8
  onCurve := by decide

end ChainRules.Curve
