import ChainRules.Bytes
import ChainRules.Script.Abort

/-!
# Script numbers

A number is written as its magnitude, least significant byte first, in the fewest bytes that leave the
highest bit of the last byte for the sign; zero is the empty string. Longer forms and the negative zero
are read as well.
-/

namespace ChainRules.Script.Number

/-- The fewest bytes that hold a magnitude and a sign bit. -/
def width (magnitude : Nat) : Nat :=
  if magnitude = 0 then 0 else (magnitude.log2 + 9) / 8

/-- The shortest written form of a number. -/
def encode (n : Int) : Bytes :=
  let width := width n.natAbs
  let sign := if n < 0 then 1 <<< (8 * width - 1) else 0
  Bytes.ofNatLe width (n.natAbs + sign)

/-- The number that a byte string of any length spells. -/
def value (bs : Bytes) : Int :=
  let n := bs.toNatLe
  let sign := 1 <<< (8 * bs.length - 1)
  if n < sign then n else -((n - sign : Nat) : Int)

/-- Reads a number that takes at most `limit` bytes. -/
def decode (limit : Nat) (bs : Bytes) : Except Abort Int :=
  if limit < bs.length then .error (.numberOverflow limit) else .ok (value bs)

/-- How many bytes a numeric operand may take. -/
def operandSize : Nat := 4

end ChainRules.Script.Number

namespace ChainRules.Script

/-- An item of a script stack. -/
abbrev Item := Bytes

namespace Item

/-- The item that stands for a truth value. -/
def ofBool (b : Bool) : Item :=
  if b then [1] else []

/-- Whether an item counts as true: some byte is not zero, a lone sign bit at the end apart. -/
def isTrue : Item → Bool
  | [] => false
  | [b] => b ≠ 0 && b ≠ 0x80
  | b :: bs => b ≠ 0 || isTrue bs

/-- The item as a numeric operand. -/
def number (item : Item) : Except Abort Int :=
  Number.decode Number.operandSize item

end Item

end ChainRules.Script
