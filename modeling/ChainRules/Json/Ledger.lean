import ChainRules.Codec.Block
import ChainRules.Fault
import ChainRules.Json.Record

/-!
# Transactions, blocks and verdicts in JSON

Byte strings and hashes are arrays of numbers. A verdict without a text is its name, and one with a
text is an object with the name as its only field.
-/

namespace ChainRules

open Json

/-- The names of the fields of an outpoint. -/
def Outpoint.fieldNames : List String := ["hash", "index"]

/-- The names of the fields of an input. -/
def Input.fieldNames : List String := ["prevout", "script_sig", "sequence"]

/-- The names of the fields of an output. -/
def Output.fieldNames : List String := ["value", "script_pubkey"]

/-- The names of the fields of a transaction. -/
def Transaction.fieldNames : List String := ["version", "inputs", "outputs", "lock_time"]

/-- The names of the fields of a header. -/
def Header.fieldNames : List String :=
  ["version", "prev_block_hash", "merkle_root", "timestamp", "bits", "nonce"]

/-- The names of the fields of a block. -/
def Block.fieldNames : List String := ["header", "transactions"]

namespace Json

/-- A record from its names and values. -/
def recordOf (names : List String) (values : List Value) : Value :=
  .ofFields (names.zip values)

/-- A 32-bit word. -/
def ofWord (n : UInt32) : Value :=
  .ofInt n.toNat

/-- A byte string. -/
def ofBytes (bs : Bytes) : Value :=
  .array (bs.map fun b => .ofInt b.toNat)

/-- A 32-bit word. -/
def word? (v : Value) : Option UInt32 :=
  (natBelow? 0x100000000 v).map UInt32.ofNat

/-- A byte string. -/
def bytes? (v : Value) : Option Bytes :=
  list? (fun item => (natBelow? 256 item).map UInt8.ofNat) v

/-- A hash. -/
def hash? (v : Value) : Option Hash256 :=
  (bytes? v).bind Hash256.ofBytes?

/-- A text as a value of some kind. -/
def read? {α : Type} (item : Value → Option α) (text : String) : Except Fault α :=
  match (parse? text).bind item with
  | some x => .ok x
  | none => .error .unreadable

end Json

/-- The outpoint as a value. -/
def Outpoint.toJson (o : Outpoint) : Value :=
  recordOf fieldNames [ofBytes o.hash.bytes, ofWord o.index]

/-- The outpoint that a value stands for. -/
def Outpoint.ofJson? (v : Value) : Option Outpoint := do
  let [hash, index] ← fullRecord? fieldNames v | none
  return { hash := ← hash? hash, index := ← word? index }

/-- The input as a value. -/
def Input.toJson (i : Input) : Value :=
  recordOf fieldNames [i.prevout.toJson, ofBytes i.script, ofWord i.sequence]

/-- The input that a value stands for. -/
def Input.ofJson? (v : Value) : Option Input := do
  let [prevout, script, sequence] ← fullRecord? fieldNames v | none
  return {
    prevout := ← Outpoint.ofJson? prevout
    script := ← bytes? script
    sequence := ← word? sequence }

/-- The output as a value. -/
def Output.toJson (o : Output) : Value :=
  recordOf fieldNames [.ofInt o.value.toInt, ofBytes o.script]

/-- The output that a value stands for. -/
def Output.ofJson? (v : Value) : Option Output := do
  let [value, script] ← fullRecord? fieldNames v | none
  return {
    value := Int64.ofInt (← integerIn? (-0x8000000000000000) 0x7fffffffffffffff value)
    script := ← bytes? script }

/-- The transaction as a value. -/
def Transaction.toJson (tx : Transaction) : Value :=
  recordOf fieldNames
    [ofWord tx.version, .array (tx.inputs.map Input.toJson), .array (tx.outputs.map Output.toJson),
      ofWord tx.lockTime]

/-- The transaction that a value stands for. -/
def Transaction.ofJson? (v : Value) : Option Transaction := do
  let [version, inputs, outputs, lockTime] ← fullRecord? fieldNames v | none
  return {
    version := ← word? version
    inputs := ← list? Input.ofJson? inputs
    outputs := ← list? Output.ofJson? outputs
    lockTime := ← word? lockTime }

/-- The header as a value. -/
def Header.toJson (h : Header) : Value :=
  recordOf fieldNames
    [ofWord h.version, ofBytes h.previous.bytes, ofBytes h.merkleRoot.bytes, ofWord h.timestamp,
      ofWord h.bits, ofWord h.nonce]

/-- The header that a value stands for. -/
def Header.ofJson? (v : Value) : Option Header := do
  let [version, previous, merkleRoot, timestamp, bits, nonce] ← fullRecord? fieldNames v | none
  return {
    version := ← word? version
    previous := ← hash? previous
    merkleRoot := ← hash? merkleRoot
    timestamp := ← word? timestamp
    bits := ← word? bits
    nonce := ← word? nonce }

/-- The block as a value. -/
def Block.toJson (b : Block) : Value :=
  recordOf fieldNames [b.header.toJson, .array (b.transactions.map Transaction.toJson)]

/-- The block that a value stands for. -/
def Block.ofJson? (v : Value) : Option Block := do
  let [header, transactions] ← fullRecord? fieldNames v | none
  return {
    header := ← Header.ofJson? header
    transactions := ← list? Transaction.ofJson? transactions }

/-- The verdict as a value. -/
def Verdict.toJson : Verdict → Value
  | okay => .ofText "Okay"
  | messageInvalid text => .ofFields [("MessageInvalid", .ofText text)]
  | contextuallyInvalid text => .ofFields [("ContextuallyInvalid", .ofText text)]
  | cancelled => .ofText "Cancelled"

/-- The verdict that a value stands for. A verdict without a text may also be written as an object
whose only field is null. -/
def Verdict.ofJson? : Value → Option Verdict
  | .string name => do
    let name ← text? name
    if name = "Okay" then some .okay
    else if name = "Cancelled" then some .cancelled
    else none
  | .object [(name, value)] => do
    let name ← text? name
    if name = "MessageInvalid" then (string? value).map .messageInvalid
    else if name = "ContextuallyInvalid" then (string? value).map .contextuallyInvalid
    else match value with
      | .null => if name = "Okay" then some .okay else if name = "Cancelled" then some .cancelled else none
      | _ => none
  | _ => none

end ChainRules
