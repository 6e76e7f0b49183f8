import ChainRules.Codec.Block

/-!
# Entries of a chain store

A store keeps blocks and transactions alike, each under its id.
-/

namespace ChainRules

/-- What a store keeps. -/
inductive Entry where
  | block (b : Block)
  | transaction (tx : Transaction)
  deriving DecidableEq

/-- Which kind of thing an entry is. -/
inductive EntryKind where
  | block
  | transaction
  deriving DecidableEq

/-- The name of a kind in messages. -/
def EntryKind.name : EntryKind → String
  | .block => "block"
  | .transaction => "transaction"

namespace Entry

/-- The id under which the entry is kept. -/
def id : Entry → Hash256
  | block b => b.id
  | transaction tx => tx.id

/-- The kind of the entry. -/
def kind : Entry → EntryKind
  | block _ => .block
  | transaction _ => .transaction

@[simp] theorem id_block (b : Block) : (block b).id = b.id := rfl

end Entry

/-- What is stored of a block, in order: its transactions and then the block. -/
def Block.entries (b : Block) : List Entry :=
  b.transactions.map .transaction ++ [.block b]

end ChainRules
