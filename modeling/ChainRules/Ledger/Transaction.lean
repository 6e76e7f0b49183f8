import ChainRules.Hash256

/-!
# Transactions

A transaction spends outputs of earlier transactions and creates new ones. Amounts are signed 64-bit
integers; a sum of amounts exists only while it stays in that range.
-/

namespace ChainRules

/-- A signed 64-bit sum, if the exact sum is in range. -/
def checkedAdd (a b : Int64) : Option Int64 :=
  let sum := a.toInt + b.toInt
  if -0x8000000000000000 ≤ sum ∧ sum < 0x8000000000000000 then some (Int64.ofInt sum) else none

/-- A reference to an output of an earlier transaction: the transaction's id and the output's
place in it. -/
structure Outpoint where
  hash : Hash256
  index : UInt32
  deriving DecidableEq

namespace Outpoint

/-- Whether the reference names no transaction, as the input of a coinbase does. -/
def isNull (o : Outpoint) : Bool :=
  o.hash = .zero

/-- The transaction id as people read it, a colon and the index. -/
def display (o : Outpoint) : String :=
  s!"{o.hash.display}:{o.index}"

end Outpoint

/-- A spend: the output that it spends and the script that unlocks it. -/
structure Input where
  prevout : Outpoint
  script : Bytes
  sequence : UInt32
  deriving DecidableEq

/-- Whether the input spends newly created value. -/
def Input.isCoinbase (i : Input) : Bool :=
  i.prevout.isNull

/-- An amount locked by a script. -/
structure Output where
  value : Int64
  script : Bytes
  deriving DecidableEq

/-- A transfer from inputs to outputs. -/
structure Transaction where
  version : UInt32
  inputs : List Input
  outputs : List Output
  lockTime : UInt32
  deriving DecidableEq

namespace Transaction

/-- Whether the transaction has exactly one input, and that one spends newly created value. -/
def isCoinbase (tx : Transaction) : Bool :=
  match tx.inputs with
  | [input] => input.isCoinbase
  | _ => false

/-- The sum of the output values, if it and every partial sum are in range. -/
def totalOutput? (tx : Transaction) : Option Int64 :=
  tx.outputs.foldlM (fun sum output => checkedAdd sum output.value) 0

end Transaction

end ChainRules
