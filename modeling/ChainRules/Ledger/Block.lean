import ChainRules.Ledger.Transaction

/-!
# Blocks

A header names the block before it and commits to the block's transactions.
-/

namespace ChainRules

/-- What a block's id is taken of. -/
structure Header where
  version : UInt32
  previous : Hash256
  merkleRoot : Hash256
  timestamp : UInt32
  bits : UInt32
  nonce : UInt32
  deriving DecidableEq

/-- Whether the block has no predecessor. -/
def Header.isGenesis (h : Header) : Bool :=
  h.previous = .zero

/-- A header and the transactions that it commits to. -/
structure Block where
  header : Header
  transactions : List Transaction
  deriving DecidableEq

/-- The first transaction, if it is a coinbase. -/
def Block.coinbase? (b : Block) : Option Transaction :=
  b.transactions.head?.filter (·.isCoinbase)

end ChainRules
