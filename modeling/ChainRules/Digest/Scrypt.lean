import ChainRules.Digest.Sha256

/-!
# scrypt

The memory-hard function with cost 1024, block size 1 and no parallelism: a keyed stretch of the
password, 1024 mixing rounds that fill a table, 1024 that read it at places that depend on the data,
and a second stretch. The data serves as password and as salt.
-/

namespace ChainRules.Digest

/-- The keyed SHA-256 authenticator of a message. -/
def hmacSha256 (key message : Bytes) : Hash256 :=
  let short := if key.length > 64 then (sha256 key).bytes else key
  let full := short ++ List.replicate (64 - short.length) 0
  let inner := sha256 (full.map (· ^^^ 0x36) ++ message)
  sha256 (full.map (· ^^^ 0x5c) ++ inner.bytes)

namespace Scrypt

/-- `count` blocks of 32 bytes stretched from a password and a salt with one iteration each. -/
def stretch (password salt : Bytes) (count : Nat) : Bytes :=
  (List.range count).flatMap fun i => (hmacSha256 password (salt ++ Bytes.ofNatBe 4 (i + 1))).bytes

/-- Adds into word `t` the sum of words `a` and `b` rotated by `n`, by exclusive or. -/
def mixInto (x : Array UInt32) (t a b : Nat) (n : UInt32) : Array UInt32 :=
  x.setIfInBounds t (x.getD t 0 ^^^ rotateLeft (x.getD a 0 + x.getD b 0) n)

/-- A quarter round on the words at four places. -/
def quarterRound (x : Array UInt32) (a b c d : Nat) : Array UInt32 :=
  mixInto (mixInto (mixInto (mixInto x b a d 7) c b a 9) d c b 13) a d c 18

/-- The quarter rounds of a double round: down the columns, then along the rows. -/
def places : List (Nat × Nat × Nat × Nat) :=
  [(0, 4, 8, 12), (5, 9, 13, 1), (10, 14, 2, 6), (15, 3, 7, 11),
   (0, 1, 2, 3), (5, 6, 7, 4), (10, 11, 8, 9), (15, 12, 13, 14)]

/-- Runs a double round. -/
def doubleRound (x : Array UInt32) : Array UInt32 :=
  places.foldl (fun x (a, b, c, d) => quarterRound x a b c d) x

/-- Sixteen words mixed by four double rounds and added to themselves. -/
def salsa (x : Array UInt32) : Array UInt32 :=
  let y := doubleRound (doubleRound (doubleRound (doubleRound x)))
  x.zipWith (· + ·) y

/-- Word-wise exclusive or. -/
def xor (x y : Array UInt32) : Array UInt32 :=
  x.zipWith (· ^^^ ·) y

/-- The working block: two halves of sixteen words. -/
structure Block where
  (low high : Array UInt32)

/-- Word-wise exclusive or of two blocks. -/
def Block.xor (x y : Block) : Block :=
  ⟨Scrypt.xor x.low y.low, Scrypt.xor x.high y.high⟩

/-- Mixes the two halves in turn, each with the outcome of the one before it. -/
def Block.mix (b : Block) : Block :=
  let low := salsa (Scrypt.xor b.high b.low)
  ⟨low, salsa (Scrypt.xor low b.high)⟩

/-- Mixes `n` times and keeps each block before it is mixed. -/
def fill : (n : Nat) → Array Block → Block → Array Block × Block
  | 0, table, b => (table, b)
  | n + 1, table, b => fill n (table.push b) b.mix

/-- Mixes `n` times, each time with the table entry that the block itself names. -/
def stir (table : Array Block) : (n : Nat) → Block → Block
  | 0, b => b
  | n + 1, b =>
    let j := b.high.getD 0 0 % 1024
    stir table n ((b.xor (table.getD j.toNat b)).mix)

/-- The memory-hard mixing of 128 bytes. -/
def mixBytes (bytes : Bytes) : Bytes :=
  let words := (wordsLe bytes).toArray
  let (table, b) := fill 1024 #[] ⟨words.extract 0 16, words.extract 16 32⟩
  let out := stir table 1024 b
  (out.low ++ out.high).toList.flatMap wordBytesLe

end Scrypt

/-- The scrypt digest with the data as password and as salt. -/
def scrypt (data : Bytes) : Hash256 :=
  hmacSha256 data (Scrypt.mixBytes (Scrypt.stretch data data 4) ++ Bytes.ofNatBe 4 1)

end ChainRules.Digest
