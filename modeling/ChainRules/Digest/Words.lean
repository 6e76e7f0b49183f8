import ChainRules.Bytes

/-!
# Words and blocks of the iterated hash functions

The hash functions of this library read a message in blocks of 64 bytes, each block as sixteen 32-bit
words. The message is first padded with a one bit, zeros and its length in bits.
-/

namespace ChainRules.Digest

/-- The four bytes of a word, most significant first. -/
def wordBytesBe (w : UInt32) : Bytes :=
  [(w >>> 24).toUInt8, (w >>> 16).toUInt8, (w >>> 8).toUInt8, w.toUInt8]

/-- The four bytes of a word, least significant first. -/
def wordBytesLe (w : UInt32) : Bytes :=
  [w.toUInt8, (w >>> 8).toUInt8, (w >>> 16).toUInt8, (w >>> 24).toUInt8]

/-- The word with the given bytes, most significant first. -/
def wordOfBytes (a b c d : UInt8) : UInt32 :=
  a.toUInt32 <<< 24 ||| b.toUInt32 <<< 16 ||| c.toUInt32 <<< 8 ||| d.toUInt32

/-- Reads groups of four bytes, most significant first; an incomplete group is dropped. -/
def wordsBe : Bytes → List UInt32
  | a :: b :: c :: d :: rest => wordOfBytes a b c d :: wordsBe rest
  | _ => []

/-- Reads groups of four bytes, least significant first; an incomplete group is dropped. -/
def wordsLe : Bytes → List UInt32
  | a :: b :: c :: d :: rest => wordOfBytes d c b a :: wordsLe rest
  | _ => []

/-- Rotates a word to the left by `n` bits, `0 < n < 32`. -/
def rotateLeft (w n : UInt32) : UInt32 :=
  w <<< n ||| w >>> (32 - n)

/-- Rotates a word to the right by `n` bits, `0 < n < 32`. -/
def rotateRight (w n : UInt32) : UInt32 :=
  w >>> n ||| w <<< (32 - n)

/-- What follows a message of `size` bytes: a one bit, zeros, and eight bytes for the length in bits,
so that the whole is a multiple of 64 bytes. -/
def padding (lengthBytes : Nat → Bytes) (size : Nat) : Bytes :=
  0x80 :: List.replicate ((119 - size % 64) % 64) 0 ++ lengthBytes (8 * size)

/-- The padded message in blocks of 64 bytes. -/
def blocks (lengthBytes : Nat → Bytes) (message : Bytes) : List Bytes :=
  let size := message.length
  (message ++ padding lengthBytes size).pieces 64 ((size + 72) / 64)

/-- Extends sixteen words to `count` by repeatedly appending `next` of the last sixteen. -/
def schedule (next : List UInt32 → UInt32) : (count : Nat) → (last : List UInt32) → List UInt32
  | 0, _ => []
  | _ + 1, [] => []
  | count + 1, w :: ws => w :: schedule next count (ws ++ [next (w :: ws)])

end ChainRules.Digest
