import ChainRules.Codec.CompactSize
import ChainRules.Digest.Sha256
import ChainRules.Ledger.Transaction

/-!
# Transactions in binary form

Fields stand in the order version, inputs, outputs, lock time; lists are preceded by their length. A
transaction's id is the double SHA-256 of its binary form.
-/

namespace ChainRules

/-- The id of the spent transaction and the index of the output. -/
def Outpoint.encode (o : Outpoint) : Bytes :=
  o.hash.bytes ++ Bytes.ofNatLe 4 o.index.toNat

/-- Reads a reference to an output. -/
def Outpoint.read : Read Outpoint := do
  let hash ← Read.hash
  let index ← Read.word32
  return { hash, index }

/-- The reference, the unlocking script and the sequence number. -/
def Input.encode (i : Input) : Bytes :=
  i.prevout.encode ++ CompactSize.encodeBytes i.script ++ Bytes.ofNatLe 4 i.sequence.toNat

/-- Reads an input. -/
def Input.read : Read Input := do
  let prevout ← Outpoint.read
  let script ← CompactSize.readBytes
  let sequence ← Read.word32
  return { prevout, script, sequence }

/-- The fewest bytes that an input takes. -/
def Input.leastSize : Nat := 41

/-- The value and the locking script. -/
def Output.encode (o : Output) : Bytes :=
  Bytes.ofNatLe 8 o.value.toUInt64.toNat ++ CompactSize.encodeBytes o.script

/-- Reads an output. -/
def Output.read : Read Output := do
  let value ← Read.amount
  let script ← CompactSize.readBytes
  return { value, script }

/-- The fewest bytes that an output takes. -/
def Output.leastSize : Nat := 9

namespace Transaction

/-- The binary form. -/
def encode (tx : Transaction) : Bytes :=
  Bytes.ofNatLe 4 tx.version.toNat ++
    CompactSize.encode tx.inputs.length ++ tx.inputs.flatMap Input.encode ++
    CompactSize.encode tx.outputs.length ++ tx.outputs.flatMap Output.encode ++
    Bytes.ofNatLe 4 tx.lockTime.toNat

/-- Reads a transaction. -/
def read : Read Transaction := do
  let version ← Read.word32
  let inputs ← Read.times Input.read (← CompactSize.readCount Input.leastSize .input)
  let outputs ← Read.times Output.read (← CompactSize.readCount Output.leastSize .output)
  let lockTime ← Read.word32
  return { version, inputs, outputs, lockTime }

/-- Reads a payload that is one transaction. -/
def decode (payload : Bytes) : Except Malformed Transaction :=
  read.whole payload

/-- The fewest bytes that a transaction takes: version, two counts and lock time. -/
def leastSize : Nat := 10

/-- The double SHA-256 of the binary form. -/
def id (tx : Transaction) : Hash256 :=
  Digest.hash256 tx.encode

end Transaction

end ChainRules
