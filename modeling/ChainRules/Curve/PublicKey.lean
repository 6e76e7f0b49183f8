import ChainRules.Bytes
import ChainRules.Curve.Point

/-!
# Public keys

A key is written as a tag and one or two coordinates of 32 bytes, most significant byte first. Tags 2
and 3 give the parity of the missing y, tag 4 precedes both coordinates, and tags 6 and 7 do both.
-/

namespace ChainRules.Curve

/-- A coordinate from its bytes, if it is below the field prime. -/
def Coord.ofBytes? (bs : Bytes) : Option Coord :=
  let n := bs.toNatBe
  if h : n < fieldPrime then some ⟨n, h⟩ else none

/-- The point with the given coordinates, if it is on the curve. -/
def Affine.ofCoords? (x y : Coord) : Option Affine :=
  if h : y * y = x * x * x + 7 then some ⟨x, y, h⟩ else none

/-- The point with the given x and parity of y, if there is one. -/
def Affine.ofParity? (x : Coord) (odd : Bool) : Option Affine := do
  let y ← Coord.squareRoot? (x * x * x + 7)
  Affine.ofCoords? x (if (y.val % 2 = 1) = odd then y else -y)

/-- The point of a public key in written form. -/
def Affine.ofKey? : Bytes → Option Affine
  | [] => none
  | tag :: coords =>
    if coords.length = 32 then do
      let x ← Coord.ofBytes? coords
      if tag = 2 then Affine.ofParity? x false
      else if tag = 3 then Affine.ofParity? x true
      else none
    else if coords.length = 64 then do
      let x ← Coord.ofBytes? (coords.take 32)
      let y ← Coord.ofBytes? (coords.drop 32)
      if tag = 4 ∨ (tag = 6 ∧ y.val % 2 = 0) ∨ (tag = 7 ∧ y.val % 2 = 1) then Affine.ofCoords? x y
      else none
    else none

end ChainRules.Curve
