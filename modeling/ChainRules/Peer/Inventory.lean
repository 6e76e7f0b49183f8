import ChainRules.Codec.Block

/-!
# Inventories

A peer offers or asks for blocks and transactions by listing their ids.
-/

namespace ChainRules.Peer

/-- A thing that a peer has or wants: what kind it is of, and its id. -/
structure InventoryEntry where
  kind : UInt32
  hash : Hash256
  deriving DecidableEq

namespace InventoryEntry

/-- The number of the kind of transactions. -/
def transactionKind : UInt32 := 1

/-- The number of the kind of blocks. -/
def blockKind : UInt32 := 2

/-- An entry that names a transaction. -/
def transaction (id : Hash256) : InventoryEntry :=
  ⟨transactionKind, id⟩

/-- An entry that names a block. -/
def block (id : Hash256) : InventoryEntry :=
  ⟨blockKind, id⟩

/-- Whether the entry names a transaction. -/
def isTransaction (e : InventoryEntry) : Bool :=
  e.kind = transactionKind

/-- Whether the entry names a block. -/
def isBlock (e : InventoryEntry) : Bool :=
  e.kind = blockKind

/-- The kind and the id. -/
def encode (e : InventoryEntry) : Bytes :=
  Bytes.ofNatLe 4 e.kind.toNat ++ e.hash.bytes

/-- Reads an entry. -/
def read : Read InventoryEntry := do
  let kind ← Read.word32
  let hash ← Read.hash
  return { kind, hash }

/-- How many bytes an entry takes. -/
def size : Nat := 36

end InventoryEntry

/-- A list of things that a peer has or wants. -/
abbrev Inventory := List InventoryEntry

namespace Inventory

/-- The most entries that a message may carry. -/
def limit : Nat := 50000

/-- The number of entries and the entries. -/
def encode (inventory : Inventory) : Bytes :=
  CompactSize.encode inventory.length ++ inventory.flatMap InventoryEntry.encode

/-- Reads an inventory. The limit is looked at before the room that is left. -/
def read : Read Inventory := do
  let count ← CompactSize.read
  if limit < count then throw (.longInventory count limit)
  if !(← get).rest.covers (count * InventoryEntry.size) then throw (.shortInventory count)
  Read.times InventoryEntry.read count

/-- Reads a payload that is one inventory. -/
def decode (payload : Bytes) : Except Malformed Inventory :=
  Read.whole read payload

end Inventory

end ChainRules.Peer
