import ChainRules.Codec.Cursor

/-!
# Compact sizes

A size below 253 is one byte. A larger one is a marker byte and then the shortest of two, four or
eight bytes that holds it; a longer form than needed is refused, so each size has one written form.
-/

namespace ChainRules.CompactSize

/-- How many bytes the written form of a size below 2^64 takes. -/
def size (n : Nat) : Nat :=
  if n < 0xfd then 1 else if n < 0x10000 then 3 else if n < 0x100000000 then 5 else 9

/-- The written form of a size below 2^64. -/
def encode (n : Nat) : Bytes :=
  if n < 0xfd then Bytes.ofNatLe 1 n
  else if n < 0x10000 then 0xfd :: Bytes.ofNatLe 2 n
  else if n < 0x100000000 then 0xfe :: Bytes.ofNatLe 4 n
  else 0xff :: Bytes.ofNatLe 8 n

/-- Reads the integer behind a marker and refuses one that a shorter form holds. -/
def readLong (start least width : Nat) (what : Primitive) : Read Nat := do
  let n ← Read.integer width what
  if n < least then throw (.nonCanonical n start) else return n

/-- Reads a size. -/
def read : Read Nat := do
  let start := (← get).offset
  let marker ← Read.integer 1 .byte
  if marker = 0xfd then readLong start 0xfd 2 .word16
  else if marker = 0xfe then readLong start 0x10000 4 .word32
  else if marker = 0xff then readLong start 0x100000000 8 .word64
  else return marker

/-- Reads how many things of at least `least` bytes each follow, and refuses a count for which too
few bytes are left. -/
def readCount (least : Nat) (what : Counted) : Read Nat := do
  let count ← read
  if (← get).rest.covers (count * least) then return count
  else throw (.oversizedCount what count)

/-- The written form of a byte string: its length and then its bytes. -/
def encodeBytes (bs : Bytes) : Bytes :=
  encode bs.length ++ bs

/-- Reads a byte string behind its length. -/
def readBytes : Read Bytes := do
  Read.bytes (← readCount 1 .byteVector)

theorem length_encode (n : Nat) : (encode n).length = size n := by
  unfold encode size
  split
  · simp
  · split
    · simp
    · split <;> simp

end ChainRules.CompactSize
