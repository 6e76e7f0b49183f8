import ChainRules.Chain.Session

/-!
# Resolving inputs

Every input of a list of transactions is paired with the output that it spends. The output is one of an
earlier transaction of the list, or else of a transaction in the store; all transactions that are wanted
from the store are looked up before the first input is paired.
-/

namespace ChainRules.Chain

/-- An input of a transaction, with the output that it spends. -/
structure Spend where
  tx : Transaction
  /-- The place of the transaction in its list. -/
  txIndex : Nat
  /-- The place of the input in its transaction. -/
  inputIndex : Nat
  output : Output
  deriving DecidableEq

/-- A transaction with its id. -/
structure Identified where
  id : Hash256
  tx : Transaction
  deriving DecidableEq

/-- A transaction together with its id. -/
def Identified.ofTransaction (tx : Transaction) : Identified :=
  ⟨tx.id, tx⟩

/-- The first transaction with an id. -/
def findTransaction? (txs : List Identified) (id : Hash256) : Option Transaction :=
  (txs.find? (·.id = id)).map Identified.tx

/-- What is known after some inputs were looked through. -/
structure Scan where
  /-- The outputs that are spent. -/
  spent : List Outpoint
  /-- The ids of the transactions before the current one. -/
  earlier : List Hash256
  /-- The ids that the store is asked for, in order. -/
  wanted : List Hash256
  deriving DecidableEq

namespace Scan

/-- The start of a scan. -/
def start : Scan :=
  ⟨[], [], []⟩

/-- Looks at one input. -/
def input (scan : Scan) (i : Input) : Except Violation Scan :=
  let o := i.prevout
  if o ∈ scan.spent then .error (.spentTwice o)
  else .ok { scan with
    spent := o :: scan.spent
    wanted :=
      if o.hash ∈ scan.earlier ∨ o.hash ∈ scan.wanted then scan.wanted
      else scan.wanted ++ [o.hash] }

/-- Looks at one transaction. -/
def transaction (scan : Scan) (t : Identified) : Except Violation Scan := do
  let scan ← if t.tx.isCoinbase then pure scan else t.tx.inputs.foldlM input scan
  return { scan with earlier := t.id :: scan.earlier }

end Scan

/-- The ids that the store is asked for, in order; no output may be spent twice. -/
def wantedIds (txs : List Identified) : Except Violation (List Hash256) :=
  Scan.wanted <$> txs.foldlM Scan.transaction .start

/-- Asks the store for each of the ids. All are asked for before the first failure counts. -/
def fetch (ids : List Hash256) : Run (List Identified) := do
  let answers ← ids.mapM fun id => Run.attempt (Run.lookup id)
  let entries ← Run.ofExcept (answers.mapM fun answer => answer)
  return (ids.zip entries).filterMap fun (id, entry) =>
    match entry with
    | some (.transaction tx) => some ⟨id, tx⟩
    | _ => none

/-- The output that an input spends. -/
def spentOutput (sources : List Identified) (txIndex inputIndex : Nat) (o : Outpoint) :
    Except Violation Output :=
  match findTransaction? sources o.hash with
  | none => .error (.unknownTransaction txIndex inputIndex o.hash)
  | some source =>
    match source.outputs[o.index.toNat]? with
    | none => .error (.missingOutput txIndex inputIndex o)
    | some output => .ok output

/-- Pairs the inputs of a transaction from the one at `inputIndex` on. -/
def resolveInputs (sources : List Identified) (tx : Transaction) (txIndex : Nat) :
    (inputIndex : Nat) → List Input → Except Violation (List Spend)
  | _, [] => .ok []
  | inputIndex, input :: rest => do
    let output ← spentOutput sources txIndex inputIndex input.prevout
    let spends ← resolveInputs sources tx txIndex (inputIndex + 1) rest
    return { tx, txIndex, inputIndex, output } :: spends

/-- Pairs the inputs of a transaction; a coinbase spends the sum of its own outputs. -/
def resolveTransaction (sources : List Identified) (txIndex : Nat) (tx : Transaction) :
    Except Violation (List Spend) :=
  if tx.isCoinbase then
    match tx.totalOutput? with
    | none => .error .coinbaseOverflow
    | some value => .ok [{ tx, txIndex, inputIndex := 0, output := ⟨value, []⟩ }]
  else resolveInputs sources tx txIndex 0 tx.inputs

/-- Pairs the inputs of the transactions that follow `earlier` ones, in order. -/
def resolveAll (fetched : List Identified) :
    (earlier rest : List Identified) → Except Violation (List Spend)
  | _, [] => .ok []
  | earlier, t :: rest => do
    let spends ← resolveTransaction (earlier ++ fetched) earlier.length t.tx
    let more ← resolveAll fetched (earlier ++ [t]) rest
    return spends ++ more

/-- Pairs every input of a list of transactions with the output that it spends. -/
def resolve (txs : List Identified) : Run (List Spend) := do
  let fetched ← fetch (← Run.check (wantedIds txs))
  Run.check (resolveAll fetched [] txs)

end ChainRules.Chain
