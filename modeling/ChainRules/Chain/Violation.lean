import ChainRules.Ledger.Block
import ChainRules.Script.Abort

/-!
# Violations

The rules that a readable block or transaction may break, and their wording. Transactions and inputs
are named by their places in the block, counted from zero.
-/

namespace ChainRules

/-- A broken rule. -/
inductive Violation where
  /-- A transaction spends nothing or creates nothing. -/
  | emptyTransfer (id : Hash256)
  | negativeOutput (value : Int64) (index : Nat)
  | outputOverflow
  /-- A transaction spends an output twice. -/
  | repeatedOutpoint (o : Outpoint)
  /-- A transaction that is no coinbase spends newly created value. -/
  | nullOutpoint
  /-- A coinbase stands outside a block. -/
  | looseCoinbase
  /-- The bits of a header spell no target that a hash can meet. -/
  | unusableTarget (bits : UInt32)
  | aboveTarget (id : Hash256)
  | noTransactions
  | firstNotCoinbase
  | secondCoinbase (index : Nat)
  | merkleMismatch (stated computed : Hash256)
  | unknownPrevious (id : Hash256)
  | previousWithoutHeight (id : Hash256)
  /-- A coinbase claims a height too far above the tip. -/
  | farHeight (claimed : Int) (lead tip : Nat)
  /-- An output is spent twice in a block. -/
  | spentTwice (o : Outpoint)
  | coinbaseOverflow
  | unknownTransaction (tx input : Nat) (id : Hash256)
  | missingOutput (tx input : Nat) (o : Outpoint)
  | scriptFalse (tx input : Nat)
  | scriptAborted (tx input : Nat) (cause : Script.Abort)
  /-- A rule that was checked elsewhere, in its own words. -/
  | other (text : String)
  deriving DecidableEq

/-- The wording of a broken rule. -/
def Violation.message : Violation → String
  | emptyTransfer id => s!"transaction {id.display} has empty inputs or outputs"
  | negativeOutput value index => s!"negative output value {value.toInt} at index {index}"
  | outputOverflow => "output values overflow"
  | repeatedOutpoint o => s!"outpoint {o.display} spent twice by one transaction"
  | nullOutpoint => "null outpoint in a non-coinbase transaction"
  | looseCoinbase => "coinbase transaction outside a block"
  | unusableTarget bits => "unusable target bits 0x" ++ Text.Hex.padded 8 bits.toNat
  | aboveTarget id => s!"block hash {id.display} is above its target"
  | noTransactions => "block has no transactions"
  | firstNotCoinbase => "first transaction is not a coinbase"
  | secondCoinbase index => s!"transaction {index} is a second coinbase"
  | merkleMismatch stated computed =>
    s!"merkle root mismatch: header {stated.display} computed {computed.display}"
  | unknownPrevious id => s!"previous block {id.display} is unknown"
  | previousWithoutHeight id => s!"previous block {id.display} has no recorded height"
  | farHeight claimed lead tip =>
    s!"coinbase height {claimed} is more than {lead} above tip {tip}"
  | spentTwice o => s!"outpoint {o.display} spent twice in one block"
  | coinbaseOverflow => "coinbase output values overflow"
  | unknownTransaction tx input id =>
    s!"transaction {tx} input {input} spends unknown transaction {id.display}"
  | missingOutput tx input o =>
    s!"transaction {tx} input {input} spends missing output {o.display}"
  | scriptFalse tx input => s!"script of transaction {tx} input {input} evaluated to false"
  | scriptAborted tx input cause =>
    s!"script of transaction {tx} input {input} failed: {cause.message}"
  | other text => text

end ChainRules
