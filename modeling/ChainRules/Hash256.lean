import ChainRules.Bytes
import ChainRules.Text.Hex

/-!
# 256-bit hashes

Block and transaction ids, Merkle nodes and signature digests are strings of exactly 32 bytes. They
are shown with their bytes reversed, as the number they spell is little-endian.
-/

namespace ChainRules

/-- A string of exactly 32 bytes. -/
structure Hash256 where
  bytes : Bytes
  size : bytes.length = 32
  deriving DecidableEq

namespace Hash256

@[ext] theorem ext {a b : Hash256} (h : a.bytes = b.bytes) : a = b := by
  cases a; cases b; cases h; rfl

/-- The hash made of 32 zero bytes. -/
def zero : Hash256 := ⟨List.replicate 32 0, by simp⟩

instance : Inhabited Hash256 := ⟨zero⟩

/-- The hash that spells the number one. -/
def one : Hash256 := ⟨1 :: List.replicate 31 0, by simp⟩

/-- A byte string as a hash, if its length is right. -/
def ofBytes? (bs : Bytes) : Option Hash256 :=
  if h : bs.length = 32 then some ⟨bs, h⟩ else none

/-- The number that the hash spells, least significant byte first. -/
def toNat (h : Hash256) : Nat :=
  h.bytes.toNatLe

/-- The hash as people read it: hexadecimal, last byte first. -/
def display (h : Hash256) : String :=
  Text.Hex.encode h.bytes.reverse

end Hash256

end ChainRules
