import ChainRules.Digest.Words

/-!
# SHA-1

The state is five words; the 80 rounds of a block come in four groups of twenty, each with its own
mixing function and constant.
-/

namespace ChainRules.Digest

namespace Sha1

/-- The five chaining words. -/
structure State where
  (a b c d e : UInt32)

/-- The state before the first block. -/
def start : State :=
  ⟨0x67452301, 0xefcdab89, 0x98badcfe, 0x10325476, 0xc3d2e1f0⟩

/-- The word that follows sixteen words of the message schedule. -/
def nextWord (last : List UInt32) : UInt32 :=
  rotateLeft (last.getD 13 0 ^^^ last.getD 8 0 ^^^ last.getD 2 0 ^^^ last.getD 0 0) 1

/-- The mixing functions and constants of the four groups of rounds. -/
def groups : List ((UInt32 → UInt32 → UInt32 → UInt32) × UInt32) :=
  [(fun b c d => (b &&& c) ||| (~~~b &&& d), 0x5a827999),
   (fun b c d => b ^^^ c ^^^ d, 0x6ed9eba1),
   (fun b c d => (b &&& c) ||| (b &&& d) ||| (c &&& d), 0x8f1bbcdc),
   (fun b c d => b ^^^ c ^^^ d, 0xca62c1d6)]

/-- One round, with the mixing function and constant of its group and its schedule word. -/
def round (mix : UInt32 → UInt32 → UInt32 → UInt32) (k : UInt32) (s : State) (w : UInt32) : State :=
  ⟨rotateLeft s.a 5 + mix s.b s.c s.d + s.e + k + w, s.a, rotateLeft s.b 30, s.c, s.d⟩

/-- Runs the groups in order, each over the next twenty schedule words. -/
def runGroups : List ((UInt32 → UInt32 → UInt32 → UInt32) × UInt32) → List UInt32 → State → State
  | [], _, s => s
  | (mix, k) :: rest, words, s =>
    runGroups rest (words.drop 20) ((words.take 20).foldl (round mix k) s)

/-- Folds one block into the state. -/
def compress (s : State) (block : Bytes) : State :=
  let t := runGroups groups (schedule nextWord 80 (wordsBe block)) s
  ⟨s.a + t.a, s.b + t.b, s.c + t.c, s.d + t.d, s.e + t.e⟩

/-- The words of the state, most significant byte first. -/
def State.bytes (s : State) : Bytes :=
  [s.a, s.b, s.c, s.d, s.e].flatMap wordBytesBe

end Sha1

/-- The SHA-1 digest of a message, 20 bytes. -/
def sha1 (message : Bytes) : Bytes :=
  ((blocks (Bytes.ofNatBe 8) message).foldl Sha1.compress Sha1.start).bytes

theorem length_sha1 (message : Bytes) : (sha1 message).length = 20 := rfl

end ChainRules.Digest
