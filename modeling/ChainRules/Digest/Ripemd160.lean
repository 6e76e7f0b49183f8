import ChainRules.Digest.Sha256

/-!
# RIPEMD-160

Two lines of 80 steps run over the same block with different word orders, rotations and constants,
and are combined at the end. Words are read and written least significant byte first.
-/

namespace ChainRules.Digest

namespace Ripemd160

/-- The five chaining words. -/
structure State where
  (a b c d e : UInt32)

/-- The state before the first block. -/
def start : State :=
  ⟨0x67452301, 0xefcdab89, 0x98badcfe, 0x10325476, 0xc3d2e1f0⟩

/-- The five mixing functions, in the order of the left line. -/
def mixers : List (UInt32 → UInt32 → UInt32 → UInt32) :=
  [fun x y z => x ^^^ y ^^^ z,
   fun x y z => (x &&& y) ||| (~~~x &&& z),
   fun x y z => (x ||| ~~~y) ^^^ z,
   fun x y z => (x &&& z) ||| (y &&& ~~~z),
   fun x y z => x ^^^ (y ||| ~~~z)]

/-- Sixteen steps that share a mixing function and a constant: the word that each reads and the
rotation that it applies. -/
structure Round where
  mix : UInt32 → UInt32 → UInt32 → UInt32
  constant : UInt32
  words : List Nat
  rotations : List UInt32

/-- The rounds of a line, from its tables. -/
def rounds (mixers : List (UInt32 → UInt32 → UInt32 → UInt32)) (constants : List UInt32)
    (words : List (List Nat)) (rotations : List (List UInt32)) : List Round :=
  (mixers.zip constants).zip (words.zip rotations) |>.map
    fun ((mix, constant), (words, rotations)) => ⟨mix, constant, words, rotations⟩

/-- The left line. -/
def leftLine : List Round :=
  rounds mixers [0x00000000, 0x5a827999, 0x6ed9eba1, 0x8f1bbcdc, 0xa953fd4e]
    [[0, 1, 2, 3, 4, 5, 6, 7, 8, 9, 10, 11, 12, 13, 14, 15],
     [7, 4, 13, 1, 10, 6, 15, 3, 12, 0, 9, 5, 2, 14, 11, 8],
     [3, 10, 14, 4, 9, 15, 8, 1, 2, 7, 0, 6, 13, 11, 5, 12],
     [1, 9, 11, 10, 0, 8, 12, 4, 13, 3, 7, 15, 14, 5, 6, 2],
     [4, 0, 5, 9, 7, 12, 2, 10, 14, 1, 3, 8, 11, 6, 15, 13]]
    [[11, 14, 15, 12, 5, 8, 7, 9, 11, 13, 14, 15, 6, 7, 9, 8],
     [7, 6, 8, 13, 11, 9, 7, 15, 7, 12, 15, 9, 11, 7, 13, 12],
     [11, 13, 6, 7, 14, 9, 13, 15, 14, 8, 13, 6, 5, 12, 7, 5],
     [11, 12, 14, 15, 14, 15, 9, 8, 9, 14, 5, 6, 8, 6, 5, 12],
     [9, 15, 5, 11, 6, 8, 13, 12, 5, 12, 13, 14, 11, 8, 5, 6]]

/-- The right line. -/
def rightLine : List Round :=
  rounds mixers.reverse [0x50a28be6, 0x5c4dd124, 0x6d703ef3, 0x7a6d76e9, 0x00000000]
    [[5, 14, 7, 0, 9, 2, 11, 4, 13, 6, 15, 8, 1, 10, 3, 12],
     [6, 11, 3, 7, 0, 13, 5, 10, 14, 15, 8, 12, 4, 9, 1, 2],
     [15, 5, 1, 3, 7, 14, 6, 9, 11, 8, 12, 2, 10, 0, 4, 13],
     [8, 6, 4, 1, 3, 11, 15, 0, 5, 12, 2, 13, 9, 7, 10, 14],
     [12, 15, 10, 4, 1, 5, 8, 7, 6, 2, 13, 14, 0, 3, 9, 11]]
    [[8, 9, 9, 11, 13, 15, 15, 5, 7, 7, 8, 11, 14, 14, 12, 6],
     [9, 13, 15, 7, 12, 8, 9, 11, 7, 7, 12, 7, 6, 15, 13, 11],
     [9, 7, 15, 11, 8, 6, 6, 14, 12, 13, 5, 14, 13, 13, 7, 5],
     [15, 5, 8, 11, 14, 14, 6, 14, 6, 9, 12, 9, 12, 5, 15, 8],
     [8, 5, 12, 9, 12, 5, 14, 6, 8, 13, 6, 5, 15, 13, 11, 11]]

/-- One step of a line. -/
def step (mix : UInt32 → UInt32 → UInt32 → UInt32) (k : UInt32) (s : State) (w r : UInt32) : State :=
  ⟨s.e, rotateLeft (s.a + mix s.b s.c s.d + w + k) r + s.e, s.b, rotateLeft s.c 10, s.d⟩

/-- One round of a line over the words of a block. -/
def runRound (block : List UInt32) (s : State) (r : Round) : State :=
  (r.words.zip r.rotations).foldl (fun s (i, n) => step r.mix r.constant s (block.getD i 0) n) s

/-- Folds one block into the state. -/
def compress (s : State) (block : Bytes) : State :=
  let words := wordsLe block
  let l := leftLine.foldl (runRound words) s
  let r := rightLine.foldl (runRound words) s
  ⟨s.b + l.c + r.d, s.c + l.d + r.e, s.d + l.e + r.a, s.e + l.a + r.b, s.a + l.b + r.c⟩

/-- The words of the state, least significant byte first. -/
def State.bytes (s : State) : Bytes :=
  [s.a, s.b, s.c, s.d, s.e].flatMap wordBytesLe

end Ripemd160

/-- The RIPEMD-160 digest of a message, 20 bytes. -/
def ripemd160 (message : Bytes) : Bytes :=
  ((blocks (Bytes.ofNatLe 8) message).foldl Ripemd160.compress Ripemd160.start).bytes

/-- RIPEMD-160 of the SHA-256 digest, 20 bytes. -/
def hash160 (message : Bytes) : Bytes :=
  ripemd160 (sha256 message).bytes

theorem length_ripemd160 (message : Bytes) : (ripemd160 message).length = 20 := rfl

theorem length_hash160 (message : Bytes) : (hash160 message).length = 20 := rfl

end ChainRules.Digest
