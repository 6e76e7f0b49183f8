import ChainRules.Chain.Violation
import ChainRules.Codec.Block
import ChainRules.Script.Number
import ChainRules.Script.Operation

/-!
# Rules without context

What must hold of a transaction, and of the list of a block's transactions, whatever the state of the
chain; and the height that a coinbase claims.
-/

namespace ChainRules

/-- Looks for the first negative value; outputs are numbered from `index`. -/
def refuseNegative (index : Nat) : List Output → Except Violation Unit
  | [] => .ok ()
  | output :: rest =>
    if output.value < 0 then .error (.negativeOutput output.value index)
    else refuseNegative (index + 1) rest

/-- Looks for the first input that spends one of the outputs `seen` or an output that an input before
it spends. -/
def refuseRepeated (seen : List Outpoint) : List Input → Except Violation Unit
  | [] => .ok ()
  | input :: rest =>
    if input.prevout ∈ seen then .error (.repeatedOutpoint input.prevout)
    else refuseRepeated (input.prevout :: seen) rest

/-- The rules for a single transaction: it spends and creates something, no value is negative, the sum
of its values is in range, no output is spent twice, and only a coinbase spends newly created value. -/
def Transaction.check (tx : Transaction) : Except Violation Unit := do
  if tx.inputs.isEmpty || tx.outputs.isEmpty then throw (.emptyTransfer tx.id)
  refuseNegative 0 tx.outputs
  if tx.totalOutput?.isNone then throw .outputOverflow
  refuseRepeated [] tx.inputs
  if !tx.isCoinbase && tx.inputs.any Input.isCoinbase then throw .nullOutpoint

/-- Looks for a further coinbase; transactions are numbered from `index`. -/
def refuseCoinbase (index : Nat) : List Transaction → Except Violation Unit
  | [] => .ok ()
  | tx :: rest =>
    if tx.isCoinbase then .error (.secondCoinbase index) else refuseCoinbase (index + 1) rest

/-- The rules for the transactions of a block: the first, and no other, is a coinbase, and each keeps
the rules for a single transaction. -/
def Block.checkStructure (b : Block) : Except Violation Unit :=
  match b.transactions with
  | [] => .error .noTransactions
  | first :: rest => do
    if !first.isCoinbase then throw .firstNotCoinbase
    refuseCoinbase 1 rest
    (first :: rest).forM Transaction.check

/-- The number that an operation pushes, if it pushes one of at most eight bytes. -/
def Script.Operation.pushedNumber? (o : Script.Operation) : Option Int :=
  match o.data with
  | some data => (Script.Number.decode 8 data).toOption
  | none => o.opcode.smallInt?

/-- The height that a coinbase claims: the number that its script pushes first, if the script can be
read. -/
def Transaction.claimedHeight? (coinbase : Transaction) : Option Int := do
  let input ← coinbase.inputs.head?
  let ops ← (Script.parse input.script).toOption
  let first ← ops.head?
  first.pushedNumber?

end ChainRules
