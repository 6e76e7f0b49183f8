import ChainRules.Codec.Transaction
import ChainRules.Ledger.Block

/-!
# Blocks in binary form

A header takes exactly 80 bytes, and a block's id is the double SHA-256 of them; the transactions
follow behind their number.
-/

namespace ChainRules

namespace Header

/-- The binary form. -/
def encode (h : Header) : Bytes :=
  Bytes.ofNatLe 4 h.version.toNat ++ h.previous.bytes ++ h.merkleRoot.bytes ++
    Bytes.ofNatLe 4 h.timestamp.toNat ++ Bytes.ofNatLe 4 h.bits.toNat ++
    Bytes.ofNatLe 4 h.nonce.toNat

/-- Reads a header. -/
def read : Read Header := do
  let version ← Read.word32
  let previous ← Read.hash
  let merkleRoot ← Read.hash
  let timestamp ← Read.word32
  let bits ← Read.word32
  let nonce ← Read.word32
  return { version, previous, merkleRoot, timestamp, bits, nonce }

/-- The double SHA-256 of the binary form. -/
def id (h : Header) : Hash256 :=
  Digest.hash256 h.encode

theorem length_encode (h : Header) : h.encode.length = 80 := by
  simp [encode, h.previous.size, h.merkleRoot.size]

end Header

namespace Block

/-- The binary form. -/
def encode (b : Block) : Bytes :=
  b.header.encode ++ CompactSize.encode b.transactions.length ++
    b.transactions.flatMap Transaction.encode

/-- Reads a block. -/
def read : Read Block := do
  let header ← Header.read
  let count ← CompactSize.readCount Transaction.leastSize .transaction
  let transactions ← Read.times Transaction.read count
  return { header, transactions }

/-- Reads a payload that is one block. -/
def decode (payload : Bytes) : Except Malformed Block :=
  read.whole payload

/-- A block is known by the id of its header. -/
def id (b : Block) : Hash256 :=
  b.header.id

end Block

end ChainRules
